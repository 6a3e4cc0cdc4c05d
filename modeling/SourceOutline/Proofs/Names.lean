import SourceOutline.Proofs.Units
import SourceOutline.QualifiedName

/-! Where a name is cut.
A plain name has no separator in it; all names kept in a tree of scopes are plain. -/
namespace SourceOutline
namespace Text
variable {mark cs front back : List Char}

@[simp] theorem cutAt?_nil (mark : List Char) : cutAt? mark [] = none := rfl

theorem cutAt?_cons (mark : List Char) (c : Char) (cs : List Char) :
    cutAt? mark (c :: cs) =
      if mark <+: c :: cs then some ([], (c :: cs).drop mark.length)
      else (cutAt? mark cs).map fun s => (c :: s.1, s.2) := by
  by_cases hp : mark <+: c :: cs
  · have hz : untilUnit mark (c :: cs) = 0 := by
      simp [untilUnit, List.isPrefixOf_iff_prefix.2 hp]
    rw [if_pos hp]
    simp [cutAt?, spanUnits_of_unit_eq_zero hz]
  · have hone : untilUnit mark (c :: cs) = 0 + 1 := by
      simp [untilUnit, mt List.isPrefixOf_iff_prefix.1 hp]
    rw [if_neg hp]
    simp only [cutAt?, spanUnits_of_unit (List.cons_ne_nil c cs) hone, List.take_succ_cons,
      List.take_zero, List.drop_succ_cons, List.drop_zero]
    split <;> simp

theorem cutAt?_eq_none_iff (hm : mark ≠ []) : cutAt? mark cs = none ↔ ¬ mark <:+: cs := by
  induction cs with
  | nil => simp [hm]
  | cons c cs ih =>
    rw [cutAt?_cons, List.infix_cons_iff]
    by_cases hp : mark <+: c :: cs <;> simp [hp, ih]

/-- More text behind it does not change where a text is cut. -/
theorem cutAt?_append (h : cutAt? mark cs = some (front, back)) (ds : List Char) :
    cutAt? mark (cs ++ ds) = some (front, back ++ ds) := by
  induction cs generalizing front with
  | nil => cases h
  | cons c cs ih =>
    have hlength : mark.length ≤ (c :: cs).length := by
      rw [← append_of_cutAt? h]
      simp only [List.length_append]
      omega
    rw [cutAt?_cons] at h
    rw [List.cons_append, cutAt?_cons]
    by_cases hp : mark <+: c :: cs
    · have hlonger : mark <+: c :: (cs ++ ds) := hp.trans (List.prefix_append (c :: cs) ds)
      rw [if_pos hp] at h
      rw [if_pos hlonger]
      cases h
      rw [← List.cons_append, List.drop_append_of_le_length hlength]
    · have hlonger : ¬ mark <+: c :: (cs ++ ds) := fun hl =>
        hp (List.prefix_of_prefix_length_le hl (List.prefix_append (c :: cs) ds) hlength)
      rw [if_neg hp] at h
      rw [if_neg hlonger]
      obtain ⟨⟨f, b⟩, hcut, heq⟩ := Option.map_eq_some_iff.1 h
      cases heq
      rw [ih hcut]
      rfl

end Text

namespace QualifiedName
open Text

/-- A name without a separator in it. -/
def Plain (name : String) : Prop := ¬ separator <:+: name.toList

theorem isQualified_eq_false_iff {name : String} : isQualified name = false ↔ Plain name := by
  rw [isQualified, Option.isSome_eq_false_iff, Option.isNone_iff_eq_none]
  exact cutAt?_eq_none_iff (by simp [separator])

theorem plain_of_not_mem {name : String} (h : ':' ∉ name.toList) : Plain name :=
  fun hs => h (hs.subset (by simp [separator]))

theorem cutFirst?_eq_none {cs : List Char} (h : ':' ∉ cs) : cutFirst? cs = none :=
  (cutAt?_eq_none_iff (by simp [separator])).2 fun hs => h (hs.subset (by simp [separator]))

theorem cutLast?_eq_none {cs : List Char} (h : ':' ∉ cs) : cutLast? cs = none := by
  have hcut : cutFirst? cs.reverse = none := cutFirst?_eq_none (by simpa using h)
  exact congrArg (Option.map _) hcut

/-- A colon at the end of the first segment would be part of the first separator. -/
theorem cutFirst?_append_of_none {cs : List Char} (h : cutFirst? cs = none)
    (hlast : cs.getLast? ≠ some ':') (ds : List Char) :
    cutFirst? (cs ++ separator ++ ds) = some (cs, ds) := by
  unfold cutFirst? at h ⊢
  induction cs with
  | nil => simp [separator, cutAt?_cons]
  | cons c cs ih =>
    rw [cutAt?_cons] at h
    split at h
    · cases h
    · next hp =>
      have hc : ¬ separator <+: c :: (cs ++ separator ++ ds) := by
        intro hsep
        obtain ⟨heq, hrest⟩ := List.cons_prefix_cons.1 hsep
        subst heq
        cases cs with
        | nil => exact hlast rfl
        | cons d cs =>
          obtain ⟨rfl, -⟩ := List.cons_prefix_cons.1 hrest
          exact hp (by simp [separator])
      have hrest : cs.getLast? ≠ some ':' := by
        cases cs with
        | nil => simp
        | cons d cs => simpa [List.getLast?_cons_cons] using hlast
      rw [List.cons_append, List.cons_append, cutAt?_cons, if_neg hc,
        ih (by simpa using h) hrest]
      rfl

theorem cutFirst?_append {front : List Char} (h : ':' ∉ front) (back : List Char) :
    cutFirst? (front ++ separator ++ back) = some (front, back) :=
  cutFirst?_append_of_none (cutFirst?_eq_none h) (fun hlast => h (List.mem_of_getLast? hlast)) back

/-- Segments that are joined by separators are found again. -/
theorem segments_intercalate {names : List (List Char)} (hne : names ≠ [])
    (h : ∀ name ∈ names, ':' ∉ name) : segments (separator.intercalate names) = names := by
  suffices hfrom : ∀ found, segmentsFrom found (separator.intercalate names) =
      found.reverse ++ names from hfrom []
  induction names with
  | nil => exact absurd rfl hne
  | cons name names ih =>
    intro found
    have hname : ':' ∉ name := h name List.mem_cons_self
    cases names with
    | nil =>
      have hcut := cutFirst?_eq_none hname
      rw [List.intercalate_singleton, segmentsFrom]
      split
      · simp
      · next hsome => rw [hcut] at hsome; cases hsome
    | cons next names =>
      have hcut := cutFirst?_append hname (separator.intercalate (next :: names))
      rw [List.intercalate_cons_cons, segmentsFrom]
      split
      · next hnone => rw [hcut] at hnone; cases hnone
      · next front back hsome =>
        rw [hcut] at hsome
        cases hsome
        rw [ih (List.cons_ne_nil _ _) fun n hn => h n (List.mem_cons_of_mem _ hn)]
        simp

end QualifiedName
end SourceOutline
