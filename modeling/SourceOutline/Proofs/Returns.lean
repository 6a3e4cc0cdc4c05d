import SourceOutline.Proofs.Locality

/-! Texts whose lines end in a carriage return and a newline.
Blanks, comments and directives end at the same places in such a text as in one with plain
newlines. -/
namespace SourceOutline
namespace Text
variable {cs : List Char}

/-- The text with a carriage return in front of every newline. -/
def withReturns (cs : List Char) : List Char :=
  cs.flatMap fun c => if c = '\n' then ['\r', '\n'] else [c]

def withoutReturns : List Char → List Char
  | [] => []
  | '\r' :: '\n' :: cs => '\n' :: withoutReturns cs
  | c :: cs => c :: withoutReturns cs

@[simp] theorem withReturns_nil : withReturns [] = [] := rfl

@[simp] theorem withReturns_newline (cs : List Char) :
    withReturns ('\n' :: cs) = '\r' :: '\n' :: withReturns cs := rfl

theorem withReturns_cons {c : Char} (hc : c ≠ '\n') (cs : List Char) :
    withReturns (c :: cs) = c :: withReturns cs := by
  simp [withReturns, hc]

@[simp] theorem withReturns_append (cs ds : List Char) :
    withReturns (cs ++ ds) = withReturns cs ++ withReturns ds := by
  simp [withReturns]

theorem withReturns_eq_self (h : '\n' ∉ cs) : withReturns cs = cs := by
  induction cs with
  | nil => rfl
  | cons c cs ih =>
    rw [withReturns_cons (List.ne_of_not_mem_cons h).symm, ih (List.not_mem_of_not_mem_cons h)]

@[simp] theorem withReturns_eq_nil : withReturns cs = [] ↔ cs = [] := by
  cases cs with
  | nil => simp
  | cons c cs => by_cases hc : c = '\n' <;> simp [hc, withReturns_cons]

theorem withoutReturns_cons {c : Char} (hc : c ≠ '\r') (cs : List Char) :
    withoutReturns (c :: cs) = c :: withoutReturns cs := by
  rw [withoutReturns]
  rintro cs rfl
  exact absurd rfl hc

theorem withoutReturns_eq_self (h : '\r' ∉ cs) : withoutReturns cs = cs := by
  induction cs with
  | nil => rfl
  | cons c cs ih =>
    rw [withoutReturns_cons (List.ne_of_not_mem_cons h).symm,
      ih (List.not_mem_of_not_mem_cons h)]

@[simp] theorem withoutReturns_withReturns (h : '\r' ∉ cs) :
    withoutReturns (withReturns cs) = cs := by
  induction cs with
  | nil => rfl
  | cons c cs ih =>
    have hcs := ih (List.not_mem_of_not_mem_cons h)
    by_cases hn : c = '\n'
    · subst hn
      rw [withReturns_newline, withoutReturns, hcs]
    · rw [withReturns_cons hn, withoutReturns_cons (List.ne_of_not_mem_cons h).symm, hcs]

theorem head?_withReturns (cs : List Char) :
    (withReturns cs).head? = cs.head?.map fun c => if c = '\n' then '\r' else c := by
  cases cs with
  | nil => rfl
  | cons c cs => by_cases hc : c = '\n' <;> simp [hc, withReturns_cons]

theorem isPrefixOf_withReturns {s : List Char} (hn : '\n' ∉ s) (hr : '\r' ∉ s) (cs : List Char) :
    s.isPrefixOf (withReturns cs) = s.isPrefixOf cs := by
  induction s generalizing cs with
  | nil => simp
  | cons d s ih =>
    have hrest := ih (List.not_mem_of_not_mem_cons hn) (List.not_mem_of_not_mem_cons hr)
    cases cs with
    | nil => rfl
    | cons c cs =>
      by_cases hc : c = '\n'
      · subst hc
        have hdn : (d == '\n') = false := beq_false_of_ne (List.ne_of_not_mem_cons hn).symm
        have hdr : (d == '\r') = false := beq_false_of_ne (List.ne_of_not_mem_cons hr).symm
        rw [withReturns_newline, List.isPrefixOf_cons_cons, List.isPrefixOf_cons_cons, hdn, hdr]
        rfl
      · rw [withReturns_cons hc, List.isPrefixOf_cons_cons, List.isPrefixOf_cons_cons, hrest]

theorem takeWhile_withReturns {q : Char → Bool} (hn : q '\n' = false) (hr : q '\r' = false)
    (cs : List Char) :
    (withReturns cs).takeWhile q = cs.takeWhile q ∧
      (withReturns cs).dropWhile q = withReturns (cs.dropWhile q) := by
  induction cs with
  | nil => exact ⟨rfl, rfl⟩
  | cons c cs ih =>
    by_cases hc : c = '\n'
    · subst hc
      simp [hn, hr]
    · rw [withReturns_cons hc]
      by_cases hq : q c = true
      · simp [hq, ih]
      · simp [hq, withReturns_cons hc]

section Units
variable {unit : List Char → Nat}

theorem Units.single {u r : List Char} (hu : u ≠ []) (h : unit (u ++ r) = u.length) :
    Units unit u r := by
  have hone : Units unit (u ++ []) r := .cons hu h .nil
  rwa [List.append_nil] at hone

/-- A reader that goes unit by unit stops at the same place, if each unit becomes one or more units
and an end of the units stays an end. -/
theorem spanUnits_withReturns
    (hstop : ∀ ds, '\r' ∉ ds → unit ds = 0 → unit (withReturns ds) = 0)
    (hunit : ∀ c ds n, '\r' ∉ c :: ds → unit (c :: ds) = n + 1 →
      Units unit (withReturns ((c :: ds).take (n + 1))) (withReturns ((c :: ds).drop (n + 1))))
    (h : '\r' ∉ cs) :
    spanUnits unit (withReturns cs) =
      (withReturns (spanUnits unit cs).1, withReturns (spanUnits unit cs).2) := by
  obtain ⟨n, hn⟩ : ∃ n, n = cs.length := ⟨_, rfl⟩
  induction n using Nat.strongRecOn generalizing cs with
  | ind n ih =>
    cases cs with
    | nil => rfl
    | cons c cs =>
      cases hu : unit (c :: cs) with
      | zero =>
        rw [spanUnits_of_unit_eq_zero hu, spanUnits_of_unit_eq_zero (hstop _ h hu)]
        rfl
      | succ k =>
        have hrest : '\r' ∉ (c :: cs).drop (k + 1) := fun hm => h (List.mem_of_mem_drop hm)
        have hlt : ((c :: cs).drop (k + 1)).length < n := by
          rw [List.length_drop, hn, List.length_cons]
          omega
        have hfront := (hunit c cs k h hu).spanUnits_append
        rw [← withReturns_append, List.take_append_drop, ih _ hlt hrest rfl] at hfront
        rw [spanUnits_of_unit (by simp) hu, hfront, withReturns_append]

theorem spanUnits_until_withReturns (stop : List Char) (hn : '\n' ∉ stop) (hr : '\r' ∉ stop)
    (h : '\r' ∉ cs) :
    spanUnits (untilUnit stop) (withReturns cs) =
      (withReturns (spanUnits (untilUnit stop) cs).1,
        withReturns (spanUnits (untilUnit stop) cs).2) := by
  refine spanUnits_withReturns ?_ ?_ h
  · intro ds _ hu
    rwa [untilUnit, isPrefixOf_withReturns hn hr]
  · intro c ds n _ hu
    have hp : stop.isPrefixOf (c :: ds) = false := by
      unfold untilUnit at hu
      split at hu
      · cases hu
      · next hp => exact eq_false_of_ne_true hp
    obtain rfl : n = 0 := Nat.succ.inj (hu.symm.trans (untilUnit_eq_one hp))
    have hp' := isPrefixOf_withReturns hn hr (c :: ds)
    rw [hp] at hp'
    by_cases hc : c = '\n'
    · subst hc
      -- a mark without line ends does not start between the two characters either
      have hbetween : stop.isPrefixOf ('\n' :: withReturns ds) = false := by
        cases stop with
        | nil => cases hp
        | cons d stop =>
          have hdn : (d == '\n') = false := beq_false_of_ne (List.ne_of_not_mem_cons hn).symm
          rw [List.isPrefixOf_cons_cons, hdn]
          rfl
      have hunits : Units (untilUnit stop) (['\r'] ++ ['\n']) (withReturns ds) :=
        .cons (by simp) (untilUnit_eq_one hp') (.single (by simp) (untilUnit_eq_one hbetween))
      exact hunits
    · rw [withReturns_cons hc] at hp'
      rw [List.take_succ_cons, List.take_zero, withReturns_cons hc]
      exact .single (by simp) (untilUnit_eq_one hp')

end Units
end Text

namespace Lexeme
open Text
variable {cs : List Char}

theorem any_head_withReturns {q : Char → Bool} (hq : blankChars.any q = false) (cs : List Char) :
    (withReturns cs).head?.any q = cs.head?.any q := by
  have hn : q '\n' = false := eq_false_of_ne_true (List.any_eq_false.1 hq _ (by decide))
  have hr : q '\r' = false := eq_false_of_ne_true (List.any_eq_false.1 hq _ (by decide))
  rw [head?_withReturns]
  cases cs with
  | nil => rfl
  | cons c cs => by_cases hc : c = '\n' <;> simp [hc, hn, hr]

section Trivia

theorem spliceLength_withReturns (h : '\r' ∉ cs) :
    spliceLength (withReturns cs) = (withReturns (cs.take (spliceLength cs))).length := by
  match cs with
  | [] => rfl
  | c :: cs =>
    by_cases hslash : c = '\\'
    · subst hslash
      match cs with
      | [] => rfl
      | d :: ds =>
        by_cases hd : d = '\n'
        · subst hd
          rfl
        · have hr : d ≠ '\r' := by
            rintro rfl
            simp at h
          simp [withReturns_cons, hd, hr, spliceLength_cons]
    · by_cases hc : c = '\n'
      · subst hc
        rfl
      · simp [withReturns_cons hc, spliceLength_cons, hslash]

theorem units_splice {unit : List Char → Nat} {n : Nat} (h : '\r' ∉ cs)
    (hn : spliceLength cs = n + 1)
    (hunit : unit (withReturns cs) = spliceLength (withReturns cs)) :
    Units unit (withReturns (cs.take (n + 1))) (withReturns (cs.drop (n + 1))) := by
  have hne : cs.take (n + 1) ≠ [] := by
    cases cs with
    | nil => cases hn
    | cons c cs => simp
  refine .single (by simpa using hne) ?_
  rw [← withReturns_append, List.take_append_drop, hunit, spliceLength_withReturns h, hn]

theorem units_char {unit : List Char → Nat} {c : Char} (hc : c ≠ '\n') {ds : List Char}
    (hunit : unit (c :: withReturns ds) = 1) :
    Units unit (withReturns ((c :: ds).take 1)) (withReturns ((c :: ds).drop 1)) := by
  rw [List.take_succ_cons, List.take_zero, withReturns_cons hc]
  exact .single (by simp) hunit

theorem blanks_withReturns (h : '\r' ∉ cs) :
    blanks (withReturns cs) = (withReturns (blanks cs).1, withReturns (blanks cs).2) := by
  have hnewline : ∀ {c}, ¬ isBlankChar c = true → c ≠ '\n' := by
    rintro c hb rfl
    exact hb rfl
  refine spanUnits_withReturns ?_ ?_ h
  · intro ds hds hu
    cases ds with
    | nil => rfl
    | cons c ds =>
      rw [blankUnit] at hu
      split at hu
      · cases hu
      · next hb =>
        have hs := spliceLength_withReturns hds
        rw [hu, withReturns_cons (hnewline hb)] at hs
        rw [withReturns_cons (hnewline hb), blankUnit, if_neg hb, hs]
        rfl
  · intro c ds n hds hu
    rw [blankUnit] at hu
    split at hu
    · next hb =>
      cases hu
      by_cases hc : c = '\n'
      · subst hc
        have hunits : Units blankUnit (['\r'] ++ ['\n']) (withReturns ds) :=
          .cons (by simp) rfl (.single (by simp) rfl)
        exact hunits
      · exact units_char hc (by rw [blankUnit, if_pos hb])
    · next hb =>
      refine units_splice hds hu ?_
      rw [withReturns_cons (hnewline hb), blankUnit, if_neg hb]

theorem endsLine_cons {c : Char} (h : spliceLength (c :: cs) = 0) :
    endsLine (c :: cs) = (decide (c = '\n') || endsLine cs) := by
  rw [endsLine]
  · rintro ds rfl rfl
    cases h
  · rintro ds rfl rfl
    cases h

theorem endsLine_withReturns (h : '\r' ∉ cs) : endsLine (withReturns cs) = endsLine cs := by
  fun_induction endsLine cs with
  | case1 cs ih => exact ih (by simp_all)
  | case2 cs ih => simp at h
  | case3 c cs hnewline hreturn ih =>
    have hcs := ih (List.not_mem_of_not_mem_cons h)
    by_cases hc : c = '\n'
    · subst hc
      simp [endsLine]
    · have hs := spliceLength_withReturns h
      have hzero : spliceLength (c :: cs) = 0 := by
        unfold spliceLength
        split
        · next ds heq => cases heq; exact (hnewline ds rfl rfl).elim
        · next ds heq => cases heq; exact (hreturn ds rfl rfl).elim
        · rfl
      rw [hzero, withReturns_cons hc] at hs
      rw [withReturns_cons hc, endsLine_cons hs, hcs]
  | case4 => rfl

theorem line_withReturns (h : '\r' ∉ cs) :
    line (withReturns cs) = (withReturns (line cs).1, withReturns (line cs).2) := by
  refine spanUnits_withReturns ?_ ?_ h
  · intro ds hds hu
    cases ds with
    | nil => rfl
    | cons c ds =>
      by_cases hc : c = '\n'
      · subst hc
        rfl
      · have hr : c ≠ '\r' := (List.ne_of_not_mem_cons hds).symm
        simp [lineUnit, hc, hr] at hu
  · intro c ds n hds hu
    have hc : c ≠ '\n' := by
      rintro rfl
      cases hu
    have hr : c ≠ '\r' := (List.ne_of_not_mem_cons hds).symm
    have hunit : ∀ es, lineUnit (c :: es) = max 1 (spliceLength (c :: es)) := by
      intro es
      simp [lineUnit, hc, hr]
    have hs := spliceLength_withReturns hds
    rw [hunit] at hu
    cases hk : spliceLength (c :: ds) with
    | zero =>
      rw [hk] at hu hs
      cases hu
      rw [withReturns_cons hc] at hs
      exact units_char hc (by rw [hunit, hs]; rfl)
    | succ k =>
      rw [hk] at hu
      obtain rfl : n = k := by omega
      refine units_splice hds hk ?_
      have hpos : 1 ≤ spliceLength (withReturns (c :: ds)) := by
        rw [hs, hk, List.take_succ_cons, withReturns_cons hc]
        simp
      rw [withReturns_cons hc] at hpos ⊢
      rw [hunit]
      omega

theorem triviaKind?_withReturns (lineStart : Bool) (cs : List Char) :
    triviaKind? lineStart (withReturns cs) = triviaKind? lineStart cs := by
  cases cs with
  | nil => rfl
  | cons c cs =>
    by_cases hc : c = '\n'
    · subst hc
      rfl
    · have hhead : ∀ d, d ≠ '\n' → d ≠ '\r' →
          ((withReturns cs).head? = some d ↔ cs.head? = some d) := by
        intro d hn hr
        rw [head?_withReturns]
        cases cs with
        | nil => simp
        | cons e cs => by_cases he : e = '\n' <;> simp [he, Ne.symm hn, Ne.symm hr]
      rw [withReturns_cons hc, triviaKind?_cons, triviaKind?_cons]
      simp [hhead]

end Trivia
end Lexeme

namespace Scan
open Text
variable {α : Type} {s s' : Scan α}

inductive Alike (s s' : Scan α) : Prop
  | fault {x : Fault} (h : s.outcome = .error x) (h' : s'.outcome = .error x)
  | read {k : α} (h : s.outcome = .ok k) (h' : s'.outcome = .ok k)
      (taken : s'.taken = withReturns s.taken) (rest : s'.rest = withReturns s.rest)

theorem Alike.of_eq (h : s'.outcome = s.outcome) (taken : s'.taken = withReturns s.taken)
    (rest : s'.rest = withReturns s.rest) : Alike s s' := by
  cases ho : s.outcome with
  | error x => exact .fault ho (h.trans ho)
  | ok k => exact .read ho (h.trans ho) taken rest

end Scan

namespace Lexeme
open Text Scan
variable {cs : List Char}

theorem blockComment_withReturns (h : '\r' ∉ cs) :
    Alike (blockComment ('/' :: '*' :: cs)) (blockComment ('/' :: '*' :: withReturns cs)) := by
  have hbody := spanUnits_until_withReturns ['*', '/'] (by decide) (by decide) h
  have hstop := unit_spanUnits_snd (untilUnit ['*', '/']) cs
  rcases hspan : spanUnits (untilUnit ['*', '/']) cs with ⟨b, r⟩
  rw [hspan] at hbody hstop
  cases r with
  | nil =>
    exact .fault (x := .unterminatedComment) (by simp [blockComment, hspan])
      (by simp [blockComment, hbody])
  | cons c r =>
    obtain ⟨r, hr⟩ : ∃ r', c :: r = '*' :: '/' :: r' :=
      ⟨_, (append_drop_of_untilUnit (hstop (by simp))).symm⟩
    rw [hr] at hspan hbody
    have hend : withReturns ('*' :: '/' :: r) = '*' :: '/' :: withReturns r := rfl
    rw [hend] at hbody
    refine .read (k := .blockComment) (by simp [blockComment, hspan])
      (by simp [blockComment, hbody]) ?_ (by simp [blockComment, hspan, hbody])
    simp [blockComment, hspan, hbody, withReturns_cons]

theorem trivia_withReturns {lineStart : Bool} {kind : TriviaKind} (h : '\r' ∉ cs)
    (hk : triviaKind? lineStart cs = some kind) :
    Alike (trivia kind cs) (trivia kind (withReturns cs)) := by
  have hline := line_withReturns h
  cases kind with
  | lineComment => exact .of_eq rfl (congrArg Prod.fst hline) (congrArg Prod.snd hline)
  | directive => exact .of_eq rfl (congrArg Prod.fst hline) (congrArg Prod.snd hline)
  | blockComment =>
    obtain ⟨ds, rfl⟩ : ∃ ds, cs = '/' :: '*' :: ds := by
      unfold triviaKind? at hk
      split at hk
      · cases hk
      · exact ⟨_, rfl⟩
      · split at hk <;> cases hk
      · cases hk
    exact blockComment_withReturns (by simp_all)

end Lexeme
end SourceOutline
