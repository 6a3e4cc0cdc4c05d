import SourceOutline.Text.Units

/-! Texts that are made of units.
A reader that goes unit by unit is described by where the units end, so that its result can be found
again when the text behind them changes. -/
namespace SourceOutline.Text
variable {unit : List Char → Nat} {cs t r : List Char}

theorem spanUnitsFrom_taken (unit : List Char → Nat) (owed : Nat) (taken cs : List Char) :
    spanUnitsFrom unit owed taken cs =
      (taken.reverse ++ (spanUnitsFrom unit owed [] cs).1, (spanUnitsFrom unit owed [] cs).2) := by
  induction cs generalizing owed taken with
  | nil => simp [spanUnitsFrom]
  | cons c cs ih =>
    cases owed with
    | succ owed =>
      simp only [spanUnitsFrom]
      rw [ih owed (c :: taken), ih owed [c]]
      simp
    | zero =>
      cases h : unit (c :: cs) with
      | zero => simp [spanUnitsFrom, h]
      | succ owed =>
        simp only [spanUnitsFrom, h]
        rw [ih owed (c :: taken), ih owed [c]]
        simp

theorem spanUnitsFrom_owed (unit : List Char → Nat) (owed : Nat) (cs : List Char) :
    spanUnitsFrom unit owed [] cs =
      (cs.take owed ++ (spanUnits unit (cs.drop owed)).1, (spanUnits unit (cs.drop owed)).2) := by
  induction owed generalizing cs with
  | zero => simp [spanUnits]
  | succ owed ih =>
    cases cs with
    | nil => simp [spanUnitsFrom]
    | cons c cs =>
      simp only [spanUnitsFrom]
      rw [spanUnitsFrom_taken, ih]
      simp

theorem spanUnits_of_unit {n : Nat} (hc : cs ≠ []) (h : unit cs = n + 1) :
    spanUnits unit cs =
      (cs.take (n + 1) ++ (spanUnits unit (cs.drop (n + 1))).1,
        (spanUnits unit (cs.drop (n + 1))).2) := by
  cases cs with
  | nil => exact absurd rfl hc
  | cons c cs =>
    simp only [spanUnits, spanUnitsFrom, h]
    rw [spanUnitsFrom_taken, spanUnitsFrom_owed]
    simp [spanUnits]

inductive Units (unit : List Char → Nat) : List Char → List Char → Prop
  | nil {r : List Char} : Units unit [] r
  | cons {u t r : List Char} (hu : u ≠ []) (h : unit (u ++ (t ++ r)) = u.length)
      (ht : Units unit t r) : Units unit (u ++ t) r

/-- Units at the front are taken, and then those of what follows. -/
theorem Units.spanUnits_append (h : Units unit t r) :
    spanUnits unit (t ++ r) = (t ++ (spanUnits unit r).1, (spanUnits unit r).2) := by
  induction h with
  | nil => rfl
  | @cons u t r hu h _ ih =>
    obtain ⟨n, hn⟩ := Nat.exists_eq_succ_of_ne_zero (mt List.length_eq_zero_iff.1 hu)
    rw [List.append_assoc, spanUnits_of_unit (by simp [hu]) (h.trans hn), ← Nat.succ_eq_add_one,
      ← hn, List.take_left, List.drop_left, ih, List.append_assoc]

theorem Units.spanUnits_eq (h : Units unit t r) (hr : r = [] ∨ unit r = 0) :
    spanUnits unit (t ++ r) = (t, r) := by
  have hstop : spanUnits unit r = ([], r) := by
    rcases hr with rfl | hr
    · rfl
    · exact spanUnits_of_unit_eq_zero hr
  rw [h.spanUnits_append, hstop, List.append_nil]

theorem units_of_spanUnits (h : spanUnits unit cs = (t, r))
    (hr : (∀ ds, unit ds ≤ ds.length) ∨ r ≠ []) : Units unit t r := by
  obtain ⟨n, hn⟩ : ∃ n, n = cs.length := ⟨_, rfl⟩
  induction n using Nat.strongRecOn generalizing cs t with
  | ind n ih =>
    cases cs with
    | nil =>
      cases h
      exact .nil
    | cons c cs =>
      cases hu : unit (c :: cs) with
      | zero =>
        rw [spanUnits_of_unit_eq_zero hu] at h
        cases h
        exact .nil
      | succ k =>
        have happ := spanUnits_append unit ((c :: cs).drop (k + 1))
        rw [spanUnits_of_unit (by simp) hu] at h
        obtain ⟨rfl, hsnd⟩ := Prod.mk.inj h
        have hle : k + 1 ≤ (c :: cs).length := by
          rcases hr with hfit | hr
          · rw [← hu]
            exact hfit _
          · refine Nat.le_of_lt (Nat.lt_of_not_le fun hlt => hr ?_)
            rw [List.drop_eq_nil_of_le hlt] at hsnd
            exact hsnd.symm
        refine .cons (by simp) ?_ (ih _ ?_ (Prod.ext rfl hsnd) rfl)
        · rw [← hsnd, happ, List.take_append_drop, hu, List.length_take_of_le hle]
        · simp only [hn, List.length_drop, List.length_cons]
          omega

theorem Units.exists_last (h : Units unit t r) (ht : t ≠ []) :
    ∃ s u, t = s ++ u ∧ u ≠ [] ∧ unit (u ++ r) = u.length := by
  induction h with
  | nil => exact absurd rfl ht
  | @cons u t r hu hunit _ ih =>
    by_cases hnil : t = []
    · subst hnil
      exact ⟨[], u, List.append_nil u, hu, hunit⟩
    · obtain ⟨s, v, rfl, hv, hlast⟩ := ih hnil
      exact ⟨u ++ s, v, (List.append_assoc u s v).symm, hv, hlast⟩

/-- Units stay units when the text from `x` on is replaced, if each of them does. `p` is what stands
between the units and the place of the change. -/
theorem Units.recut {p x y : List Char} (h : Units unit t (p ++ x))
    (hunit : ∀ u v, u ≠ [] → u ++ v <:+ t ++ p → p <:+ v → (v = [] → x = [] ∨ unit x = 0) →
      unit (u ++ (v ++ x)) = u.length → unit (u ++ (v ++ y)) = u.length)
    (hx : p = [] → x = [] ∨ unit x = 0) : Units unit t (p ++ y) := by
  generalize hr : p ++ x = r at h
  induction h with
  | nil => exact .nil
  | @cons u t r hu h ht ih =>
    subst hr
    refine .cons hu ?_ (ih ?_ rfl)
    · have hcut := hunit u (t ++ p) hu (by simp) (List.suffix_append t p)
        (fun hv => hx (List.append_eq_nil_iff.1 hv).2)
      rw [List.append_assoc, List.append_assoc] at hcut
      exact hcut h
    · intro w v hw hsuf
      refine hunit w v hw (hsuf.trans ?_)
      rw [List.append_assoc]
      exact List.suffix_append u (t ++ p)

theorem untilUnit_eq_one {stop : List Char} (h : stop.isPrefixOf cs = false) :
    untilUnit stop cs = 1 := by
  rw [untilUnit, h]
  rfl

/-- A reader goes over the whole text when the mark that it looks for is nowhere. -/
theorem not_infix_of_spanUnits {stop : List Char} (hstop : stop ≠ [])
    (h : (spanUnits (untilUnit stop) cs).2 = []) : ¬ stop <:+: cs := by
  induction cs with
  | nil => simpa using hstop
  | cons c cs ih =>
    cases hp : stop.isPrefixOf (c :: cs) with
    | true =>
      rw [spanUnits_of_unit_eq_zero (by simp [untilUnit, hp])] at h
      cases h
    | false =>
      rw [spanUnits_of_unit (by simp) (untilUnit_eq_one hp)] at h
      rw [List.infix_cons_iff, ← List.isPrefixOf_iff_prefix, hp]
      simpa using ih h

theorem untilUnit_append {stop ds x y : List Char} (hlen : stop.length ≤ ds.length) :
    untilUnit stop (ds ++ x) = untilUnit stop (ds ++ y) := by
  have hcut : ∀ z, stop.isPrefixOf (ds ++ z) = stop.isPrefixOf ds := by
    intro z
    rw [Bool.eq_iff_iff, List.isPrefixOf_iff_prefix, List.isPrefixOf_iff_prefix]
    constructor
    · intro h
      exact List.prefix_of_prefix_length_le h (List.prefix_append ds z) hlen
    · intro h
      exact h.trans (List.prefix_append ds z)
  rw [untilUnit, untilUnit, hcut x, hcut y]

theorem spanUnits_until_recut {stop b x y : List Char}
    (h : spanUnits (untilUnit stop) (b ++ (stop ++ x)) = (b, stop ++ x)) (hstop : stop ≠ []) :
    spanUnits (untilUnit stop) (b ++ (stop ++ y)) = (b, stop ++ y) := by
  have hunits := units_of_spanUnits h (.inr (by simp [hstop]))
  refine Units.spanUnits_eq (hunits.recut ?_ (fun hnil => absurd hnil hstop)) ?_
  · intro u v _ _ hv _ hu
    rw [← hu, ← List.append_assoc, ← List.append_assoc]
    refine untilUnit_append ?_
    have := hv.length_le
    rw [List.length_append]
    omega
  · right
    simp [untilUnit]

/-! The first place of a mark. -/

/-- `mark` stands behind `front` and nowhere earlier, and `back` follows it. -/
structure FirstAt (mark cs front back : List Char) : Prop where
  split : cs = front ++ (mark ++ back)
  first : ∀ x y, cs = x ++ (mark ++ y) → front.length ≤ x.length

section FirstAt
variable {mark front back : List Char}

theorem FirstAt.isInfix (h : FirstAt mark cs front back) : mark <:+: cs :=
  ⟨front, back, by rw [h.split, List.append_assoc]⟩

theorem FirstAt.cons {c : Char} (h : FirstAt mark cs front back) (hp : ¬ mark <+: c :: cs) :
    FirstAt mark (c :: cs) (c :: front) back := by
  refine ⟨congrArg (c :: ·) h.split, ?_⟩
  intro x y hxy
  cases x with
  | nil => exact absurd ⟨y, hxy.symm⟩ hp
  | cons d x => exact Nat.succ_le_succ (h.first x y (List.cons.inj hxy).2)

theorem FirstAt.tail {c : Char} (h : FirstAt mark (c :: cs) (c :: front) back) :
    FirstAt mark cs front back ∧ ¬ mark <+: c :: cs := by
  refine ⟨⟨(List.cons.inj h.split).2, ?_⟩, ?_⟩
  · intro x y hxy
    exact Nat.le_of_succ_le_succ (h.first (c :: x) y (congrArg (c :: ·) hxy))
  · rintro ⟨y, hy⟩
    exact absurd (h.first [] y hy.symm) (Nat.not_succ_le_zero _)

theorem exists_firstAt (h : mark <:+: cs) : ∃ front back, FirstAt mark cs front back := by
  induction cs with
  | nil =>
    obtain rfl := List.infix_nil.1 h
    exact ⟨[], [], rfl, fun _ _ _ => Nat.zero_le _⟩
  | cons c cs ih =>
    by_cases hp : mark <+: c :: cs
    · obtain ⟨back, hback⟩ := hp
      exact ⟨[], back, hback.symm, fun _ _ _ => Nat.zero_le _⟩
    · obtain ⟨front, back, hfirst⟩ := ih ((List.infix_cons_iff.1 h).resolve_left hp)
      exact ⟨c :: front, back, hfirst.cons hp⟩

theorem FirstAt.spanUnits_eq (h : FirstAt mark cs front back) :
    spanUnits (untilUnit mark) cs = (front, mark ++ back) := by
  induction front generalizing cs with
  | nil =>
    rw [h.split, List.nil_append]
    exact spanUnits_of_unit_eq_zero (by simp [untilUnit])
  | cons c front ih =>
    obtain ⟨cs, rfl⟩ : ∃ ds, cs = c :: ds := ⟨_, h.split⟩
    obtain ⟨htail, hp⟩ := h.tail
    have hunit : untilUnit mark (c :: cs) = 0 + 1 :=
      untilUnit_eq_one (eq_false_of_ne_true (mt List.isPrefixOf_iff_prefix.1 hp))
    rw [spanUnits_of_unit (by simp) hunit, List.drop_one, List.tail_cons, ih htail]
    rfl

theorem firstAt_of_spanUnits (h : spanUnits (untilUnit mark) cs = (front, mark ++ back)) :
    FirstAt mark cs front back := by
  have hsplit := spanUnits_append (untilUnit mark) cs
  rw [h] at hsplit
  have hinfix : mark <:+: cs := ⟨front, back, by rw [← hsplit, List.append_assoc]⟩
  obtain ⟨f, b, hfirst⟩ := exists_firstAt hinfix
  obtain ⟨rfl, hback⟩ := Prod.mk.inj (hfirst.spanUnits_eq.symm.trans h)
  obtain rfl := List.append_cancel_left hback
  exact hfirst

end FirstAt

end SourceOutline.Text
