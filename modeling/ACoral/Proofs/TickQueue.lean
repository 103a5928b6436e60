import ACoral.Kernel.Timer
import ACoral.Lib.DeltaList

/-!
# `ACoral.Proofs.TickQueue`: when a queued thread is popped

A tick queue is a delta list: the expiry of a thread is the sum of the
values up to its node.

* `expiry_acoralTickQueueAdd`: adding a thread changes no other expiry;
* `tickDeal_spec`: one call of the handler counts down, pops the threads
  whose expiry is then 0, and leaves the others with the expiry they have
  then. The threads it adds again do not change that, as long as each of
  them waits at least a tick (`Rearms`). Adding one again for 0 ticks is
  an addition like any other, and is not part of the handler here;
* `tickDeal_popped`: a popped thread that is added again expires after the
  ticks it is given;
* `poppedAt_iff`: so a thread is popped one call after its expiry in the
  counted-down queue. The handler only counts down while the first thread
  has ticks left, and `expiry_tickCountDown` says what that costs.

`samePop_iff` compares two queues by these expiries.
-/

set_option autoImplicit false

namespace ACoral

open Lib (keys total expiry Ordered)

variable {T : Type} [DecidableEq T]

/-! ### Adding -/

omit [DecidableEq T] in
/-- `acoral_tick_queue_add` adds one key. -/
theorem keys_acoralTickQueueAdd (q : List (T × Int)) (n : T) (tick : Int) :
    (keys (acoralTickQueueAdd q n tick)).Perm (n :: keys q) := by
  induction q generalizing tick with
  | nil => exact List.Perm.refl _
  | cons node q ih =>
      obtain ⟨t, v⟩ := node
      unfold acoralTickQueueAdd
      split
      · exact List.Perm.refl _
      · rw [Lib.keys_cons, Lib.keys_cons]
        exact ((ih _).cons t).trans (List.Perm.swap n t _)

/-- It changes the expiry of no queued thread. -/
theorem expiry_acoralTickQueueAdd {q : List (T × Int)} {n x : T} (hn : n ≠ x) (tick : Int)
    (hx : x ∈ keys q) : expiry (acoralTickQueueAdd q n tick) x = expiry q x := by
  induction q generalizing tick with
  | nil => simp at hx
  | cons node q ih =>
      obtain ⟨t, v⟩ := node
      unfold acoralTickQueueAdd
      split
      · rw [Lib.expiry_cons_of_ne hn]
        by_cases ht : t = x
        · simp [expiry, ht]
        · rw [Lib.expiry_cons_of_ne ht, Lib.expiry_cons_of_ne ht]
          omega
      · by_cases ht : t = x
        · simp [expiry, ht]
        · rw [Lib.keys_cons, List.mem_cons] at hx
          rw [Lib.expiry_cons_of_ne ht, Lib.expiry_cons_of_ne ht, ih _ (hx.resolve_left (Ne.symm ht))]

/-- The new thread expires after its ticks. -/
theorem expiry_acoralTickQueueAdd_self {q : List (T × Int)} {n : T} (hn : n ∉ keys q)
    (tick : Int) : expiry (acoralTickQueueAdd q n tick) n = tick := by
  induction q generalizing tick with
  | nil => simp [acoralTickQueueAdd]
  | cons node q ih =>
      obtain ⟨t, v⟩ := node
      rw [Lib.keys_cons, List.mem_cons, not_or] at hn
      unfold acoralTickQueueAdd
      split
      · simp
      · rw [Lib.expiry_cons_of_ne (Ne.symm hn.1), ih hn.2]
        omega

omit [DecidableEq T] in
/-- Adding a thread keeps the values nonnegative. -/
theorem ordered_acoralTickQueueAdd {q : List (T × Int)} (h : Ordered q) {n : T}
    (hn : n ∉ keys q) {tick : Int} (ht : 0 ≤ tick) : Ordered (acoralTickQueueAdd q n tick) := by
  refine ⟨(keys_acoralTickQueueAdd q n tick).nodup_iff.mpr (List.nodup_cons.mpr ⟨hn, h.nodup⟩), ?_⟩
  clear hn
  induction q generalizing tick with
  | nil => simpa [acoralTickQueueAdd] using ht
  | cons node q ih =>
      obtain ⟨t, v⟩ := node
      have hv := h.head_nonneg
      unfold acoralTickQueueAdd
      split
      · intro m hm
        simp only [List.mem_cons] at hm
        rcases hm with rfl | rfl | hm
        · exact ht
        · simp only; omega
        · exact h.tail.nonneg m hm
      · intro m hm
        rcases List.mem_cons.mp hm with rfl | hm
        · exact hv
        · exact ih h.tail (by omega) m hm

/-- A queued thread is in one place. -/
theorem exists_split {q : List (T × Int)} {r : T} (hr : r ∈ keys q) :
    ∃ q₁ v q₂, q = q₁ ++ (r, v) :: q₂ ∧ r ∉ keys q₁ := by
  induction q with
  | nil => simp at hr
  | cons node q ih =>
      obtain ⟨t, v⟩ := node
      by_cases ht : t = r
      · exact ⟨[], v, q, by simp [ht], by simp⟩
      · rw [Lib.keys_cons, List.mem_cons] at hr
        obtain ⟨q₁, w, q₂, rfl, hn⟩ := ih (hr.resolve_left (Ne.symm ht))
        exact ⟨(t, v) :: q₁, w, q₂, rfl, by simp [hn, Ne.symm ht]⟩

/-- What the list functions read and remove at a place. -/
theorem nodeValue_split {q₁ : List (T × Int)} {r : T} (hn : r ∉ keys q₁) (v : Int)
    (q₂ : List (T × Int)) : nodeValue (q₁ ++ (r, v) :: q₂) r = v := by
  unfold nodeValue
  rw [List.find?_append, List.find?_eq_none.mpr]
  · simp
  · intro node hnode
    simp only [decide_eq_true_eq]
    exact fun he => hn (List.mem_map.mpr ⟨node, hnode, he⟩)

theorem nodeNext_split {q₁ : List (T × Int)} {r : T} (hn : r ∉ keys q₁) (v : Int)
    (q₂ : List (T × Int)) : nodeNext (q₁ ++ (r, v) :: q₂) r = (keys q₂).head? := by
  unfold nodeNext
  rw [List.dropWhile_append_of_pos]
  · simp [keys]
  · intro node hnode
    simp only [ne_eq, decide_not, Bool.not_eq_true', decide_eq_false_iff_not]
    exact fun he => hn (List.mem_map.mpr ⟨node, hnode, he⟩)

theorem acoralTickQueueDel_split {q₁ : List (T × Int)} {r : T} (hn : r ∉ keys q₁) (v : Int)
    (q₂ : List (T × Int)) : acoralTickQueueDel (q₁ ++ (r, v) :: q₂) r = q₁ ++ q₂ := by
  unfold acoralTickQueueDel
  rw [List.eraseP_append_right]
  · simp
  · intro node hnode
    simp only [decide_eq_true_eq]
    exact fun he => hn (List.mem_map.mpr ⟨node, hnode, he⟩)

/-! ### One call of the handler -/

/-- The ticks of the first thread; 0 in an empty queue. -/
def headTicks (q : List (T × Int)) : Int := (q.head?.map Prod.snd).getD 0

/-- The queue is empty, or its first thread is not due. -/
def HeadWaits (q : List (T × Int)) : Prop := ∀ node ∈ q.head?, 0 < node.2

omit [DecidableEq T] in
/-- Where somebody waits, the first thread has ticks left. -/
theorem HeadWaits.headTicks_ne {q : List (T × Int)} (h : HeadWaits q) {x : T} (hx : x ∈ keys q) :
    headTicks q ≠ 0 := by
  cases q with
  | nil => simp at hx
  | cons node q =>
      have hpos : 0 < node.2 := h node rfl
      show node.2 ≠ 0
      omega

/-- Every thread that is added again waits at least a tick. -/
def Rearms (rearm : T → Option Int) : Prop := ∀ t tick, rearm t = some tick → 0 < tick

/-- Add a popped thread again. -/
def readd (rearm : T → Option Int) (q : List (T × Int)) (t : T) : List (T × Int) :=
  match rearm t with
  | none      => q
  | some tick => acoralTickQueueAdd q t tick

omit [DecidableEq T] in
/-- A thread added with ticks left goes behind the threads that are due. -/
theorem readd_due (rearm : T → Option Int) (hre : Rearms rearm) (Z : List T)
    (R : List (T × Int)) (t : T) :
    readd rearm (Z.map (fun z => (z, 0)) ++ R) t =
      Z.map (fun z => (z, 0)) ++ readd rearm R t := by
  unfold readd
  cases hr : rearm t with
  | none => rfl
  | some tick =>
      have hpos := hre t tick hr
      induction Z with
      | nil => rfl
      | cons z Z ih =>
          simp only [List.map_cons, List.cons_append, acoralTickQueueAdd]
          rw [if_neg (by omega), Int.sub_zero]
          exact congrArg _ ih

omit [DecidableEq T] in
/-- What adding again does to the keys. -/
theorem mem_keys_readd {rearm : T → Option Int} {q : List (T × Int)} {t x : T} (hx : x ≠ t) :
    x ∈ keys (readd rearm q t) ↔ x ∈ keys q := by
  unfold readd
  cases rearm t with
  | none => exact Iff.rfl
  | some tick =>
      rw [(keys_acoralTickQueueAdd q t tick).mem_iff, List.mem_cons]
      simp [hx]

theorem expiry_readd {rearm : T → Option Int} {q : List (T × Int)} {t x : T} (hx : x ≠ t)
    (hmem : x ∈ keys q) : expiry (readd rearm q t) x = expiry q x := by
  unfold readd
  cases rearm t with
  | none => rfl
  | some tick => exact expiry_acoralTickQueueAdd (Ne.symm hx) tick hmem

omit [DecidableEq T] in
theorem ordered_readd {rearm : T → Option Int} (hre : Rearms rearm) {q : List (T × Int)}
    (h : Ordered q) {t : T} (ht : t ∉ keys q) : Ordered (readd rearm q t) := by
  unfold readd
  cases hr : rearm t with
  | none => exact h
  | some tick => exact ordered_acoralTickQueueAdd h ht (Int.le_of_lt (hre t tick hr))

omit [DecidableEq T] in
/-- Adding again leaves the head waiting, and the old head too. -/
theorem headWaits_readd {rearm : T → Option Int} (hre : Rearms rearm) {q : List (T × Int)}
    (h : HeadWaits q) (t : T) : HeadWaits (readd rearm q t) := by
  unfold readd
  cases hr : rearm t with
  | none => exact h
  | some tick =>
      have hpos := hre t tick hr
      intro node hnode
      cases q with
      | nil =>
          simp only [acoralTickQueueAdd, List.head?_cons, Option.mem_some_iff] at hnode
          exact hnode ▸ hpos
      | cons first q =>
          have hfirst := h first rfl
          simp only [acoralTickQueueAdd] at hnode
          split at hnode <;> simp only [List.head?_cons, Option.mem_some_iff] at hnode
          · exact hnode ▸ hpos
          · exact hnode ▸ hfirst

/-- The loop stops where the next node is the head or not due. -/
def Stops (q : List (T × Int)) (tmp : Option T) : Prop := ∀ t ∈ tmp, 0 < nodeValue q t

/-- The node after the last due one stays not due when a thread is added
again in front of it. -/
theorem stops_readd (rearm : T → Option Int) {q : List (T × Int)}
    (h : HeadWaits q) {t : T} (ht : t ∉ keys q) :
    Stops (readd rearm q t) (keys q).head? := by
  intro r hr
  cases q with
  | nil => simp at hr
  | cons node q =>
      obtain ⟨s, v⟩ := node
      have hv : 0 < v := h (s, v) rfl
      simp only [Lib.keys_cons, List.head?_cons, Option.mem_some_iff] at hr
      subst hr
      rw [Lib.keys_cons, List.mem_cons, not_or] at ht
      unfold readd
      cases rearm t with
      | none => simpa [nodeValue] using hv
      | some tick =>
          simp only [acoralTickQueueAdd]
          split
          · simp only [nodeValue, List.find?_cons, ht.1, decide_false, decide_true,
              Option.map_some, Option.getD_some]
            omega
          · simpa [nodeValue] using hv

/-- The loop on a queue whose due threads are `Z`: it pops them, and
adds them again to the rest. -/
theorem tickPopLoop_due {rearm : T → Option Int} (hre : Rearms rearm) (Z : List T)
    (R : List (T × Int)) (fuel : Nat) (tmp : Option T) (popped : List T)
    (hnd : (Z ++ keys R).Nodup) (hR : HeadWaits R)
    (htmp : match Z with | [] => Stops R tmp | z :: _ => tmp = some z)
    (hfuel : Z.length < fuel) :
    tickPopLoop rearm fuel (Z.map (fun z => (z, 0)) ++ R) tmp popped =
      some (popped ++ Z, Z.foldl (readd rearm) R) := by
  induction Z generalizing R fuel tmp popped with
  | nil =>
      obtain ⟨n, rfl⟩ := Nat.exists_eq_succ_of_ne_zero (Nat.ne_zero_of_lt hfuel)
      cases tmp with
      | none => simp [tickPopLoop]
      | some t =>
          have hv : 0 < nodeValue R t := htmp t rfl
          simp [tickPopLoop, hv]
  | cons z Z ih =>
      obtain ⟨n, rfl⟩ := Nat.exists_eq_succ_of_ne_zero (Nat.ne_zero_of_lt hfuel)
      simp only at htmp
      subst htmp
      rw [List.cons_append, List.nodup_cons, List.mem_append, not_or] at hnd
      have hval : nodeValue ((z :: Z).map (fun z => (z, 0)) ++ R) z = 0 := by simp [nodeValue]
      have hdel : acoralTickQueueDel ((z :: Z).map (fun z => (z, 0)) ++ R) z =
          Z.map (fun z => (z, 0)) ++ R := by simp [acoralTickQueueDel]
      have hnext : nodeNext ((z :: Z).map (fun z => (z, 0)) ++ R) z = (Z ++ keys R).head? := by
        cases Z with
        | nil => simp [nodeNext, keys]
        | cons y Z => simp [nodeNext]
      have hkeys : (Z ++ keys (readd rearm R z)).Nodup := by
        unfold readd
        cases rearm z with
        | none => exact hnd.2
        | some tick =>
            have hperm := (keys_acoralTickQueueAdd R z tick).append_left Z
            rw [hperm.nodup_iff, List.nodup_middle, List.nodup_cons, List.mem_append, not_or]
            exact hnd
      rw [tickPopLoop, if_neg (by rw [hval]; decide), hdel, hnext]
      show tickPopLoop rearm n (readd rearm (Z.map (fun z => (z, 0)) ++ R) z) _ _ = _
      rw [readd_due rearm hre, ih _ n _ (popped ++ [z]) hkeys (headWaits_readd hre hR z)]
      · simp
      · cases Z with
        | nil => exact stops_readd rearm hR hnd.1.2
        | cons y Z => rfl
      · simpa using hfuel

omit [DecidableEq T] in
/-- The due threads of a queue and the rest of it. -/
theorem exists_due {q : List (T × Int)} (h : Ordered q) :
    ∃ (Z : List T) (R : List (T × Int)), q = Z.map (fun z => (z, 0)) ++ R ∧ HeadWaits R := by
  induction q with
  | nil => exact ⟨[], [], rfl, by simp [HeadWaits]⟩
  | cons node q ih =>
      obtain ⟨t, v⟩ := node
      by_cases hv : v = 0
      · obtain ⟨Z, R, rfl, hR⟩ := ih h.tail
        exact ⟨t :: Z, R, by simp [hv], hR⟩
      · have := h.head_nonneg
        refine ⟨[], (t, v) :: q, rfl, fun node hnode => ?_⟩
        simp only [List.head?_cons, Option.mem_some_iff] at hnode
        rw [← hnode]
        simp only
        omega

omit [DecidableEq T] in
/-- Counting down keeps the threads. -/
theorem keys_tickCountDown (q : List (T × Int)) : keys (tickCountDown q) = keys q := by
  cases q with
  | nil => rfl
  | cons node q =>
      obtain ⟨t, v⟩ := node
      simp only [tickCountDown]
      split <;> rfl

omit [DecidableEq T] in
theorem ordered_tickCountDown {q : List (T × Int)} (h : Ordered q) :
    Ordered (tickCountDown q) := by
  refine ⟨(keys_tickCountDown q).symm ▸ h.nodup, ?_⟩
  cases q with
  | nil => simp [tickCountDown]
  | cons node q =>
      obtain ⟨t, v⟩ := node
      have htail := h.tail.nonneg
      simp only [tickCountDown]
      split
      · rintro m (_ | ⟨_, hm⟩)
        · simp only; omega
        · exact htail m hm
      · exact h.nonneg

/-- Counting down takes one tick off every expiry, unless the first
thread has none left. -/
theorem expiry_tickCountDown {q : List (T × Int)} (h : Ordered q) {x : T} (hx : x ∈ keys q) :
    expiry (tickCountDown q) x = expiry q x - if headTicks q = 0 then 0 else 1 := by
  cases q with
  | nil => simp at hx
  | cons node q =>
      obtain ⟨t, v⟩ := node
      have hv := h.head_nonneg
      have hhead : headTicks ((t, v) :: q) = v := rfl
      rw [hhead]
      simp only [tickCountDown]
      by_cases hv0 : v = 0
      · simp [hv0]
      · rw [if_pos (by omega), if_neg hv0]
        by_cases ht : t = x
        · simp [ht]
        · rw [Lib.expiry_cons_of_ne ht, Lib.expiry_cons_of_ne ht]
          omega

omit [DecidableEq T] in
/-- The other popped threads are in no queue while one is added again. -/
theorem nodup_readd {rearm : T → Option Int} (hre : Rearms rearm) {z : T} {Z : List T}
    {R : List (T × Int)} (hnd : (z :: Z ++ keys R).Nodup) (hord : Ordered R) :
    (Z ++ keys (readd rearm R z)).Nodup := by
  rw [List.cons_append, List.nodup_cons, List.mem_append, not_or] at hnd
  refine List.nodup_append.mpr ⟨(List.nodup_append.mp hnd.2).1,
    (ordered_readd hre hord hnd.1.2).nodup, fun y hy x hx he => ?_⟩
  subst he
  have hyz : y ≠ z := fun he => hnd.1.1 (he ▸ hy)
  exact (List.nodup_append.mp hnd.2).2.2 y hy y ((mem_keys_readd hyz).mp hx) rfl

/-- What re-adding the popped threads leaves of the rest. -/
theorem foldl_readd {rearm : T → Option Int} (hre : Rearms rearm) (Z : List T)
    (R : List (T × Int)) (hnd : (Z ++ keys R).Nodup) (hord : Ordered R) (hR : HeadWaits R) :
    Ordered (Z.foldl (readd rearm) R) ∧ HeadWaits (Z.foldl (readd rearm) R) ∧
      ∀ x ∈ keys R, x ∈ keys (Z.foldl (readd rearm) R) ∧
        expiry (Z.foldl (readd rearm) R) x = expiry R x := by
  induction Z generalizing R with
  | nil => exact ⟨hord, hR, fun x hx => ⟨hx, rfl⟩⟩
  | cons z Z ih =>
      have hnd' := nodup_readd hre hnd hord
      rw [List.cons_append, List.nodup_cons, List.mem_append, not_or] at hnd
      have hne : ∀ x ∈ keys R, x ≠ z := fun x hx he => hnd.1.2 (he ▸ hx)
      obtain ⟨ho, hw, hrest⟩ := ih (readd rearm R z) hnd' (ordered_readd hre hord hnd.1.2)
        (headWaits_readd hre hR z)
      refine ⟨ho, hw, fun x hx => ?_⟩
      obtain ⟨hmem, hexp⟩ := hrest x ((mem_keys_readd (hne x hx)).mpr hx)
      exact ⟨hmem, hexp.trans (expiry_readd (hne x hx) hx)⟩

/-- A thread that is added again expires after its ticks, whatever is added
behind it. -/
theorem foldl_readd_popped {rearm : T → Option Int} (hre : Rearms rearm) (Z : List T)
    (R : List (T × Int)) (hnd : (Z ++ keys R).Nodup) (hord : Ordered R) (hR : HeadWaits R) {x : T}
    (hx : x ∈ Z) {tick : Int} (hrearm : rearm x = some tick) :
    x ∈ keys (Z.foldl (readd rearm) R) ∧ expiry (Z.foldl (readd rearm) R) x = tick := by
  induction Z generalizing R with
  | nil => simp at hx
  | cons z Z ih =>
      have hnd' := nodup_readd hre hnd hord
      rw [List.cons_append, List.nodup_cons, List.mem_append, not_or] at hnd
      have hord' := ordered_readd hre hord hnd.1.2
      have hR' := headWaits_readd hre hR z
      rcases List.mem_cons.mp hx with rfl | hx
      · have hadd : readd rearm R x = acoralTickQueueAdd R x tick := by
          unfold readd
          rw [hrearm]
        have hmem : x ∈ keys (readd rearm R x) := by
          rw [hadd, (keys_acoralTickQueueAdd R x tick).mem_iff]
          exact List.mem_cons_self
        obtain ⟨hmem', hexp⟩ := (foldl_readd hre Z _ hnd' hord' hR').2.2 x hmem
        refine ⟨hmem', hexp.trans ?_⟩
        rw [hadd]
        exact expiry_acoralTickQueueAdd_self hnd.1.2 tick
      · exact ih _ hnd' hord' hR' hx

omit [DecidableEq T] in
/-- No other thread comes in. -/
theorem mem_keys_foldl_readd {rearm : T → Option Int} {Z : List T} {R : List (T × Int)} {x : T}
    (hx : x ∉ Z) : x ∈ keys (Z.foldl (readd rearm) R) ↔ x ∈ keys R := by
  induction Z generalizing R with
  | nil => exact Iff.rfl
  | cons z Z ih =>
      rw [List.mem_cons, not_or] at hx
      rw [List.foldl_cons, ih hx.2, mem_keys_readd hx.1]

/-- One call of the handler pops the front `Z` of the queue, whose ticks are
over, and adds it again to the rest. -/
theorem tickDeal_split {rearm : T → Option Int} (hre : Rearms rearm) {q : List (T × Int)}
    (h : Ordered q) :
    ∃ Z R, tickCountDown q = Z.map (fun z => (z, 0)) ++ R ∧ (Z ++ keys R).Nodup ∧ Ordered R ∧
      HeadWaits R ∧ tickDeal rearm q = some (Z, Z.foldl (readd rearm) R) := by
  have hc := ordered_tickCountDown h
  obtain ⟨Z, R, hsplit, hR⟩ := exists_due hc
  have hkZ : keys (Z.map fun z => (z, (0 : Int))) = Z := by simp [keys, Function.comp_def]
  have hnd : (Z ++ keys R).Nodup := by
    have := hc.nodup
    rwa [hsplit, Lib.keys_append, hkZ] at this
  refine ⟨Z, R, hsplit, hnd, hc.sublist (hsplit ▸ List.sublist_append_right _ _), hR, ?_⟩
  unfold tickDeal
  have hloop := tickPopLoop_due hre Z R ((tickCountDown q).length + 1)
    ((tickCountDown q).head?.map Prod.fst) [] hnd hR ?_ ?_
  · rw [← hsplit] at hloop
    simpa using hloop
  · rw [hsplit]
    cases Z with
    | nil =>
        intro t ht
        cases R with
        | nil => simp at ht
        | cons node R =>
            obtain ⟨s, v⟩ := node
            have hv : 0 < v := hR (s, v) rfl
            obtain rfl : s = t := by simpa using ht
            simpa [nodeValue] using hv
    | cons z Z => rfl
  · rw [hsplit, List.length_append, List.length_map]
    omega

/-- In a queue whose front is due, the threads that are due have expiry 0. -/
theorem expiry_due_iff {Z : List T} {R : List (T × Int)} (hnd : (Z ++ keys R).Nodup)
    (hord : Ordered R) (hR : HeadWaits R) {x : T} (hx : x ∈ Z ∨ x ∈ keys R) :
    x ∈ Z ↔ expiry (Z.map (fun z => (z, 0)) ++ R) x = 0 := by
  induction Z with
  | nil =>
      have hx := hx.resolve_left List.not_mem_nil
      have hpos : 0 < expiry R x := by
        cases R with
        | nil => simp at hx
        | cons node R =>
            obtain ⟨t, v⟩ := node
            have hv : 0 < v := hR (t, v) rfl
            have htail := hord.tail.expiry_nonneg x
            unfold expiry
            split <;> omega
      simp only [List.not_mem_nil, List.map_nil, List.nil_append, false_iff]
      omega
  | cons z Z ih =>
      rw [List.cons_append, List.nodup_cons] at hnd
      rw [List.map_cons, List.cons_append]
      by_cases hz : z = x
      · simp [hz]
      · rw [Lib.expiry_cons_of_ne hz, Int.zero_add, List.mem_cons, or_iff_right (Ne.symm hz)]
        refine ih hnd.2 (hx.imp_left fun hx => ?_)
        exact (List.mem_cons.mp hx).resolve_left (Ne.symm hz)

/-- The rest of the queue expires as it does alone. -/
theorem expiry_rest {Z : List T} {R : List (T × Int)} {x : T} (hx : x ∉ Z) :
    expiry (Z.map (fun z => (z, 0)) ++ R) x = expiry R x := by
  have hkeys : x ∉ keys (Z.map fun z => (z, (0 : Int))) := by simpa [keys] using hx
  have htotal : total (Z.map fun z => (z, (0 : Int))) = 0 := by simp [total, Function.comp_def]
  rw [Lib.expiry_append_right hkeys, htotal, Int.zero_add]

/-- One call of the handler on an ordered queue. It pops the threads
whose expiry is 0 after counting down; the others stay, with the expiry
they have then. -/
theorem tickDeal_spec {rearm : T → Option Int} (hre : Rearms rearm) {q : List (T × Int)}
    (h : Ordered q) :
    ∃ Z q', tickDeal rearm q = some (Z, q') ∧ Ordered q' ∧ HeadWaits q' ∧
      (∀ x ∈ keys q, x ∈ Z ↔ expiry (tickCountDown q) x = 0) ∧
      (∀ x ∈ keys q, x ∉ Z → x ∈ keys q' ∧ expiry q' x = expiry (tickCountDown q) x) := by
  obtain ⟨Z, R, hsplit, hnd, hord, hR, hdeal⟩ := tickDeal_split hre h
  obtain ⟨ho, hw, hrest⟩ := foldl_readd hre Z R hnd hord hR
  have hmem : ∀ x ∈ keys q, x ∈ Z ∨ x ∈ keys R := by
    intro x hx
    rw [← keys_tickCountDown q, hsplit, Lib.keys_append, List.mem_append] at hx
    exact hx.imp_left fun hx => by simpa [keys] using hx
  refine ⟨Z, _, hdeal, ho, hw, fun x hx => ?_, fun x hx hz => ?_⟩
  · rw [hsplit]
    exact expiry_due_iff hnd hord hR (hmem x hx)
  · obtain ⟨hin, he⟩ := hrest x ((hmem x hx).resolve_left hz)
    rw [hsplit, expiry_rest hz]
    exact ⟨hin, he⟩

/-- What the handler does with the threads it pops: each is popped once, and
is queued again for the ticks it is given. -/
theorem tickDeal_popped {rearm : T → Option Int} (hre : Rearms rearm) {q q' : List (T × Int)}
    (h : Ordered q) {Z : List T} (hdeal : tickDeal rearm q = some (Z, q')) :
    Z.Nodup ∧ (∀ x ∈ Z, x ∈ keys q) ∧ (∀ x, x ∉ Z → (x ∈ keys q' ↔ x ∈ keys q)) ∧
      ∀ x ∈ Z, ∀ tick, rearm x = some tick → x ∈ keys q' ∧ expiry q' x = tick := by
  obtain ⟨Z', R, hsplit, hnd, hord, hR, hdeal'⟩ := tickDeal_split hre h
  rw [hdeal', Option.some.injEq, Prod.mk.injEq] at hdeal
  obtain ⟨rfl, rfl⟩ := hdeal
  have hkeys : ∀ x, x ∈ keys q ↔ x ∈ Z' ∨ x ∈ keys R := by
    intro x
    rw [← keys_tickCountDown q, hsplit, Lib.keys_append, List.mem_append]
    simp [keys]
  refine ⟨(List.nodup_append.mp hnd).1, fun x hx => (hkeys x).mpr (Or.inl hx), fun x hx => ?_,
    fun x hx tick hrearm => foldl_readd_popped hre Z' R hnd hord hR hx hrearm⟩
  rw [mem_keys_foldl_readd hx, hkeys x, or_iff_right hx]

/-- The loop asks only for threads of the queue how long they wait. -/
theorem tickPopLoop_congr {rearm rearm' : T → Option Int} {S : T → Prop}
    (hsame : ∀ t, S t → rearm t = rearm' t) (fuel : Nat) (q : List (T × Int)) (tmp : Option T)
    (popped : List T) (hq : ∀ t ∈ keys q, S t) (htmp : ∀ t ∈ tmp, S t) :
    tickPopLoop rearm fuel q tmp popped = tickPopLoop rearm' fuel q tmp popped := by
  induction fuel generalizing q tmp popped with
  | zero => rfl
  | succ fuel ih =>
      cases tmp with
      | none => rfl
      | some t =>
          have ht : S t := htmp t rfl
          have hdel : ∀ u ∈ keys (acoralTickQueueDel q t), S u := fun u hu =>
            hq u ((List.eraseP_sublist.map _).subset hu)
          have hnext : ∀ u ∈ nodeNext q t, S u := by
            intro u hu
            obtain ⟨node, hnode, rfl⟩ := Option.map_eq_some_iff.mp hu
            have hin := (List.tail_sublist _).subset (List.mem_of_mem_head? hnode)
            exact hq _ (List.mem_map_of_mem ((List.dropWhile_sublist _).subset hin))
          simp only [tickPopLoop]
          split
          · rfl
          · rw [← hsame t ht]
            refine ih _ _ _ ?_ hnext
            cases rearm t with
            | none => exact hdel
            | some tick =>
                intro u hu
                rw [(keys_acoralTickQueueAdd _ t tick).mem_iff, List.mem_cons] at hu
                rcases hu with rfl | hu
                · exact ht
                · exact hdel u hu

theorem tickDeal_congr {rearm rearm' : T → Option Int} {q : List (T × Int)}
    (hsame : ∀ t ∈ keys q, rearm t = rearm' t) : tickDeal rearm q = tickDeal rearm' q := by
  have hhead : ∀ t ∈ (tickCountDown q).head?.map Prod.fst, t ∈ keys q := by
    intro t ht
    obtain ⟨node, hnode, rfl⟩ := Option.map_eq_some_iff.mp ht
    rw [← keys_tickCountDown q]
    exact List.mem_map_of_mem (List.mem_of_mem_head? hnode)
  refine tickPopLoop_congr hsame _ _ _ _ (fun t ht => ?_) hhead
  rwa [keys_tickCountDown] at ht

/-- What the handler does where only the threads of the queue are known to
wait at least a tick. -/
theorem tickDeal_queued {rearm : T → Option Int} {q : List (T × Int)}
    (hre : ∀ t ∈ keys q, ∀ tick, rearm t = some tick → 0 < tick) :
    ∃ rearm', Rearms rearm' ∧ (∀ t ∈ keys q, rearm' t = rearm t) ∧
      tickDeal rearm q = tickDeal rearm' q := by
  have hsame : ∀ t ∈ keys q, (if t ∈ keys q then rearm t else none) = rearm t :=
    fun t ht => if_pos ht
  refine ⟨fun t => if t ∈ keys q then rearm t else none, fun t tick htick => ?_, hsame,
    tickDeal_congr fun t ht => (hsame t ht).symm⟩
  dsimp only at htick
  split at htick
  · exact hre t ‹_› tick htick
  · cases htick

/-! ### The tick at which a thread is popped -/

/-- The thread is popped by the `k`-th next call of the handler, and by
no call before. Call `j` adds popped threads again as `rearm j` says. -/
def poppedAt (rearm : Nat → T → Option Int) : (k : Nat) → List (T × Int) → T → Bool
  | 0,     _, _ => false
  | k + 1, q, x =>
      match tickDeal (rearm 0) q with
      | none              => false
      | some (popped, q') =>
          if x ∈ popped then decide (k = 0) else poppedAt (fun j => rearm (j + 1)) k q' x

/-- A queued thread is popped one call after the ticks it has left once
the head is counted down. -/
theorem poppedAt_iff {rearm : Nat → T → Option Int} (hre : ∀ j, Rearms (rearm j)) (k : Nat)
    {q : List (T × Int)} (h : Ordered q) {x : T} (hx : x ∈ keys q) :
    poppedAt rearm k q x = true ↔ (k : Int) = expiry (tickCountDown q) x + 1 := by
  induction k generalizing q rearm with
  | zero =>
      have := (ordered_tickCountDown h).expiry_nonneg x
      simp only [poppedAt, Bool.false_eq_true, false_iff]
      omega
  | succ k ih =>
      obtain ⟨Z, q', hdeal, ho, hw, hZ, hrest⟩ := tickDeal_spec (hre 0) h
      rw [poppedAt, hdeal]
      simp only
      by_cases hxZ : x ∈ Z
      · rw [if_pos hxZ, decide_eq_true_eq, (hZ x hx).mp hxZ]
        omega
      · obtain ⟨hx', he⟩ := hrest x hx hxZ
        have hne := fun h0 => hxZ ((hZ x hx).mpr h0)
        rw [if_neg hxZ, ih (fun j => hre (j + 1)) ho hx', expiry_tickCountDown ho hx',
          if_neg (hw.headTicks_ne hx'), he]
        omega

/-- The thread is popped by the same call from either queue, whatever
the handler adds again in between. -/
def SamePop (q q' : List (T × Int)) (x : T) : Prop :=
  ∀ rearm : Nat → T → Option Int, (∀ j, Rearms (rearm j)) →
    ∀ k, poppedAt rearm k q x = true ↔ poppedAt rearm k q' x = true

/-- Two queues pop a thread by the same call exactly when it has as many
ticks left in both once the heads are counted down. -/
theorem samePop_iff {q q' : List (T × Int)} (h : Ordered q) (h' : Ordered q') {x : T}
    (hx : x ∈ keys q) (hx' : x ∈ keys q') :
    SamePop q q' x ↔ expiry (tickCountDown q) x = expiry (tickCountDown q') x := by
  constructor
  · intro hsame
    have hnone : ∀ j : Nat, Rearms (T := T) ((fun _ _ => none : Nat → T → Option Int) j) := by
      intro j t tick ht
      simp at ht
    have hpos := (ordered_tickCountDown h).expiry_nonneg x
    obtain ⟨n, hn⟩ := Int.eq_ofNat_of_zero_le hpos
    have hq := (poppedAt_iff hnone (n + 1) h hx).mpr (by omega)
    have hq' := (poppedAt_iff hnone (n + 1) h' hx').mp ((hsame _ hnone _).mp hq)
    omega
  · intro he rearm hre k
    rw [poppedAt_iff hre k h hx, poppedAt_iff hre k h' hx', he]

end ACoral
