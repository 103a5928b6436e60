import ACoral.Kernel.PbCommon
import Mathlib.Data.List.Basic

/-!
# `ACoral.Proofs.PbFields`: the search for a field

* `pbFieldIterFind_found`, `pbFieldIterFind_missing`: the search finds a field from every
  position that an earlier search can have left.
* `findRun_eq_lookup`: so the cached position changes no answer. A run of searches answers like
  one that starts at the first field each time.
-/

set_option autoImplicit false

namespace ACoral

variable {fields : PbMsgdesc} {tag start index i p rounds : Nat}

theorem tagAt_eq (hp : p < fields.length) : fields.tagAt p = fields[p].tag := by
  rw [PbMsgdesc.tagAt, List.getElem?_eq_getElem hp]
  rfl

/-- The tags ascend with the index. -/
theorem PbMsgdesc.WellFormed.tagAt_lt (hwf : fields.WellFormed) (h : i < p)
    (hp : p < fields.length) : fields.tagAt i < fields.tagAt p := by
  rw [tagAt_eq hp, tagAt_eq (Nat.lt_trans h hp)]
  exact List.pairwise_iff_getElem.mp hwf.sorted i p _ hp h

theorem PbMsgdesc.WellFormed.tagAt_inj (hwf : fields.WellFormed) (hi : i < fields.length)
    (hp : p < fields.length) (h : fields.tagAt i = fields.tagAt p) : i = p := by
  rcases Nat.lt_trichotomy i p with hlt | heq | hgt
  · exact absurd h (Nat.ne_of_lt (hwf.tagAt_lt hlt hp))
  · exact heq
  · exact absurd h.symm (Nat.ne_of_lt (hwf.tagAt_lt hgt hi))

theorem acoSimCoreMsg_wellFormed : acoSimCoreMsg.WellFormed := ⟨by decide, by decide⟩

theorem acoSimTaskMsg_wellFormed : acoSimTaskMsg.WellFormed := ⟨by decide, by decide⟩

theorem acoSimSwitchContextMsg_wellFormed : acoSimSwitchContextMsg.WellFormed :=
  ⟨by decide, by decide⟩

/-! ### The loop -/

theorem pbFindLoop_succ (fields : PbMsgdesc) (tag start rounds index : Nat) :
    pbFindLoop fields tag start (rounds + 1) index =
      if fields.tagAt (advanceIterator fields index) = tag then
        (true, fields.load (advanceIterator fields index))
      else if advanceIterator fields index ≠ start then
        pbFindLoop fields tag start rounds (advanceIterator fields index)
      else (false, fields.load start) := by
  rw [pbFindLoop]
  by_cases htag : fields.tagAt (advanceIterator fields index) = tag
  · rw [if_pos htag]
    exact if_pos ⟨congrArg (· &&& 0x3F) htag, htag⟩
  · rw [if_neg htag]
    exact if_neg fun h => htag h.2

/-- The loop meets the field before it is back at the start. -/
theorem pbFindLoop_found (hwf : fields.WellFormed) (hp : p < fields.length)
    (hahead : index < p ∧ (start ≤ index ∨ p ≤ start) ∧ p - index ≤ rounds ∨
      p ≤ start ∧ start ≤ index ∧ index ≤ fields.length ∧ fields.length + 1 - index + p ≤ rounds) :
    pbFindLoop fields (fields.tagAt p) start rounds index = (true, fields.load p) := by
  induction rounds generalizing index with
  | zero => omega
  | succ rounds ih =>
      have hnext : advanceIterator fields index = if index + 1 ≥ fields.length then 0 else index + 1 :=
        rfl
      have hlt : advanceIterator fields index < fields.length := by
        rw [hnext]
        split <;> omega
      rw [pbFindLoop_succ]
      by_cases hhit : advanceIterator fields index = p
      · rw [if_pos (by rw [hhit]), hhit]
      · rw [if_neg fun h => hhit (hwf.tagAt_inj hlt hp h)]
        -- the start is behind, or not before the field
        have hgo : advanceIterator fields index ≠ start := by
          rw [hnext] at hhit ⊢
          split at hhit <;> rename_i hend
          · rw [if_pos hend]
            omega
          · rw [if_neg hend]
            omega
        rw [if_pos hgo]
        apply ih
        rw [hnext] at hhit ⊢
        split at hhit <;> rename_i hend
        · rw [if_pos hend]
          omega
        · rw [if_neg hend]
          omega

theorem pbFindLoop_missing (hstart : start < fields.length)
    (hnone : ∀ i < fields.length, fields.tagAt i ≠ tag) :
    pbFindLoop fields tag start rounds index = (false, fields.load start) := by
  induction rounds generalizing index with
  | zero => rfl
  | succ rounds ih =>
      have hlt : advanceIterator fields index < fields.length := by
        rw [advanceIterator]
        split <;> omega
      rw [pbFindLoop_succ, if_neg (hnone _ hlt)]
      split
      · exact ih
      · rfl

/-! ### The search -/

/-- The search finds the field from every position. -/
theorem pbFieldIterFind_found (hwf : fields.WellFormed) (hi : i < fields.length)
    (hp : p < fields.length) :
    pbFieldIterFind fields (fields.load i) (fields.tagAt p) = (true, fields.load p) := by
  rw [pbFieldIterFind]
  show (if fields.tagAt i = fields.tagAt p then _ else if _ then _ else
    pbFindLoop fields (fields.tagAt p) i (fields.length + 1)
      (if fields.tagAt p < fields.tagAt i then fields.length else i)) = _
  by_cases hsame : fields.tagAt i = fields.tagAt p
  · rw [if_pos hsame, hwf.tagAt_inj hi hp hsame]
  · have hlargest : ¬ fields.tagAt p > fields.largestTag := by
      rw [PbMsgdesc.largestTag]
      by_cases hlast : p = fields.length - 1
      · rw [hlast]
        exact Nat.lt_irrefl _
      · exact Nat.not_lt.mpr (Nat.le_of_lt (hwf.tagAt_lt (by omega) (by omega)))
    rw [if_neg hsame, if_neg hlargest]
    apply pbFindLoop_found hwf hp
    by_cases hsmaller : fields.tagAt p < fields.tagAt i
    · have hpi : p < i := by
        by_contra hge
        have hlt := hwf.tagAt_lt (i := i) (p := p)
          (by rcases Nat.lt_or_eq_of_le (Nat.not_lt.mp hge) with h | h
              · exact h
              · exact absurd (by rw [h]) hsame) hp
        omega
      rw [if_pos hsmaller]
      omega
    · rw [if_neg hsmaller]
      have hne : i ≠ p := fun h => hsame (by rw [h])
      omega

/-- A tag that no field has is not found. The position stays that of a field. -/
theorem pbFieldIterFind_missing (hi : i < fields.length)
    (hnone : ∀ i < fields.length, fields.tagAt i ≠ tag) :
    pbFieldIterFind fields (fields.load i) tag = (false, fields.load i) := by
  rw [pbFieldIterFind, if_neg (show ¬ (fields.load i).tag = tag from hnone i hi)]
  split
  · rfl
  · exact pbFindLoop_missing hi hnone

/-! ### A run of searches -/

/-- The field of a tag, or nothing. -/
def PbMsgdesc.lookup (fields : PbMsgdesc) (tag : Nat) : Option Nat :=
  fields.findIdx? fun f => f.tag = tag

/-- The answers to a run of searches, each from where the last one ended. -/
def findRun (fields : PbMsgdesc) : PbFieldIter → (tags : List Nat) → List (Option Nat)
  | _,    []          => []
  | iter, tag :: tags =>
      let (found, iter) := pbFieldIterFind fields iter tag
      (if found then some iter.index else none) :: findRun fields iter tags

theorem lookup_eq_some (h : fields.lookup tag = some p) :
    p < fields.length ∧ fields.tagAt p = tag := by
  obtain ⟨hp, htag, -⟩ := List.findIdx?_eq_some_iff_getElem.mp h
  exact ⟨hp, by rw [tagAt_eq hp]; exact of_decide_eq_true htag⟩

theorem lookup_eq_none (h : fields.lookup tag = none) :
    ∀ i < fields.length, fields.tagAt i ≠ tag := by
  intro i hi htag
  have hfalse := List.findIdx?_eq_none_iff.mp h fields[i] (List.getElem_mem hi)
  rw [← tagAt_eq hi, htag] at hfalse
  exact absurd hfalse (by simp)

/-- The cached position changes no answer. -/
theorem findRun_eq_lookup (hwf : fields.WellFormed) (hne : fields ≠ []) (tags : List Nat) :
    findRun fields (pbFieldIterBegin fields) tags = tags.map fields.lookup := by
  have hrun : ∀ i < fields.length, findRun fields (fields.load i) tags = tags.map fields.lookup := by
    induction tags with
    | nil => exact fun _ _ => rfl
    | cons tag tags ih =>
        intro i hi
        rw [findRun, List.map_cons]
        cases hlook : fields.lookup tag with
        | none =>
            rw [pbFieldIterFind_missing hi (lookup_eq_none hlook)]
            exact congrArg _ (ih i hi)
        | some p =>
            obtain ⟨hp, htag⟩ := lookup_eq_some hlook
            rw [← htag, pbFieldIterFind_found hwf hi hp]
            exact congrArg _ (ih p hp)
  exact hrun 0 (List.length_pos_iff.mpr hne)

theorem findRun_eq_lookup_task :
    findRun acoSimTaskMsg (pbFieldIterBegin acoSimTaskMsg) [9, 1, 73, 4, 2] =
      [9, 1, 73, 4, 2].map acoSimTaskMsg.lookup :=
  findRun_eq_lookup acoSimTaskMsg_wellFormed (by decide) _

end ACoral
