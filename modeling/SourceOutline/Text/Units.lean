/-! Reading a text unit by unit.
A unit is a few characters that are taken or left together. A reader is given as a function that
says how many characters the unit at the front has, zero when there is none. -/
namespace SourceOutline.Text

/-- The units at the front of a text and what follows them. `owed` characters of the unit being
read are still to be taken; `taken` holds the characters read so far, last one first. -/
def spanUnitsFrom (unit : List Char → Nat) : Nat → List Char → List Char → List Char × List Char
  | _, taken, [] => (taken.reverse, [])
  | owed + 1, taken, c :: cs => spanUnitsFrom unit owed (c :: taken) cs
  | 0, taken, c :: cs =>
    match unit (c :: cs) with
    | 0 => (taken.reverse, c :: cs)
    | owed + 1 => spanUnitsFrom unit owed (c :: taken) cs

/-- Splits a text where its leading units end. -/
def spanUnits (unit : List Char → Nat) (cs : List Char) : List Char × List Char :=
  spanUnitsFrom unit 0 [] cs

theorem spanUnitsFrom_append (unit : List Char → Nat) (owed : Nat) (taken cs : List Char) :
    (spanUnitsFrom unit owed taken cs).1 ++ (spanUnitsFrom unit owed taken cs).2 =
      taken.reverse ++ cs := by
  induction cs generalizing owed taken with
  | nil => simp [spanUnitsFrom]
  | cons c cs ih =>
    cases owed with
    | succ owed => simp [spanUnitsFrom, ih]
    | zero =>
      cases h : unit (c :: cs) with
      | zero => simp [spanUnitsFrom, h]
      | succ n => simp [spanUnitsFrom, h, ih]

/-- Nothing is lost and nothing moves. -/
@[simp] theorem spanUnits_append (unit : List Char → Nat) (cs : List Char) :
    (spanUnits unit cs).1 ++ (spanUnits unit cs).2 = cs := by
  simpa [spanUnits] using spanUnitsFrom_append unit 0 [] cs

theorem length_spanUnits_snd_le (unit : List Char → Nat) (cs : List Char) :
    (spanUnits unit cs).2.length ≤ cs.length := by
  have h := congrArg List.length (spanUnits_append unit cs)
  rw [List.length_append] at h
  omega

@[simp] theorem spanUnits_nil (unit : List Char → Nat) : spanUnits unit [] = ([], []) := rfl

theorem spanUnits_of_unit_eq_zero {unit : List Char → Nat} {cs : List Char} (h : unit cs = 0) :
    spanUnits unit cs = ([], cs) := by
  cases cs with
  | nil => rfl
  | cons c cs => simp [spanUnits, spanUnitsFrom, h]

/-- What follows the units starts with none. -/
theorem unit_spanUnitsFrom_snd (unit : List Char → Nat) (owed : Nat) (taken cs : List Char)
    (h : (spanUnitsFrom unit owed taken cs).2 ≠ []) :
    unit (spanUnitsFrom unit owed taken cs).2 = 0 := by
  induction cs generalizing owed taken with
  | nil => simp [spanUnitsFrom] at h
  | cons c cs ih =>
    cases owed with
    | succ owed => exact ih owed (c :: taken) h
    | zero =>
      cases hu : unit (c :: cs) with
      | zero => simp [spanUnitsFrom, hu]
      | succ n =>
        simp only [spanUnitsFrom, hu] at h ⊢
        exact ih n (c :: taken) h

theorem unit_spanUnits_snd (unit : List Char → Nat) (cs : List Char)
    (h : (spanUnits unit cs).2 ≠ []) : unit (spanUnits unit cs).2 = 0 :=
  unit_spanUnitsFrom_snd unit 0 [] cs h

/-- A text that starts with a unit loses at least one character. -/
theorem length_spanUnits_snd_lt {unit : List Char → Nat} {cs : List Char} (hc : cs ≠ [])
    (h : unit cs ≠ 0) : (spanUnits unit cs).2.length < cs.length := by
  have hle := length_spanUnits_snd_le unit cs
  have happ := spanUnits_append unit cs
  rcases Nat.lt_or_eq_of_le hle with hlt | heq
  · exact hlt
  · exfalso
    have hnil : (spanUnits unit cs).1 = [] := by
      have hl := congrArg List.length happ
      rw [List.length_append] at hl
      exact List.eq_nil_of_length_eq_zero (by omega)
    rw [hnil, List.nil_append] at happ
    have hz := unit_spanUnits_snd unit cs (by rw [happ]; exact hc)
    rw [happ] at hz
    exact h hz

/-- One character at a time until `stop` comes. -/
def untilUnit (stop cs : List Char) : Nat := if stop.isPrefixOf cs then 0 else 1

/-- A text that a reader stopped at begins with the mark it was looking for. -/
theorem take_of_untilUnit {stop cs : List Char} (h : untilUnit stop cs = 0) :
    cs.take stop.length = stop := by
  unfold untilUnit at h
  split at h
  · next hp => exact (List.prefix_iff_eq_take.1 (List.isPrefixOf_iff_prefix.1 hp)).symm
  · simp at h

theorem append_drop_of_untilUnit {stop cs : List Char} (h : untilUnit stop cs = 0) :
    stop ++ cs.drop stop.length = cs := by
  have hs := List.take_append_drop stop.length cs
  rwa [take_of_untilUnit h] at hs

/-- Splits a text at the first occurrence of a mark. -/
def cutAt? (mark cs : List Char) : Option (List Char × List Char) :=
  let s := spanUnits (untilUnit mark) cs
  if s.2.isEmpty then none else some (s.1, s.2.drop mark.length)

theorem append_of_cutAt? {mark cs front back : List Char} (h : cutAt? mark cs = some (front, back)) :
    front ++ (mark ++ back) = cs := by
  unfold cutAt? at h
  dsimp only at h
  split at h
  · cases h
  · next hne =>
    cases h
    have hz := unit_spanUnits_snd (untilUnit mark) cs (by simpa using hne)
    rw [append_drop_of_untilUnit hz, spanUnits_append]

end SourceOutline.Text
