import SourceOutline.Proofs.LexerStep
import SourceOutline.Proofs.Units

/-! Tokens do not depend on the text behind a break.
When a text is cut somewhere behind a token and a blank, or the end of the text, is put at the cut,
the same token is read. In the names below `x` is the text behind the cut, `y` is what it is replaced
by, and `p` is what stands between the token and the cut. -/
namespace SourceOutline.Lexeme
open Text

/-- No token goes on into such a text. -/
def Breaks (y : List Char) : Prop := ∀ c ∈ y.head?, isBlankChar c = true

theorem breaks_nil : Breaks [] := by simp [Breaks]

theorem breaks_cons {c : Char} (h : isBlankChar c = true) (cs : List Char) : Breaks (c :: cs) := by
  simpa [Breaks] using h

theorem Breaks.any_head {y : List Char} (h : Breaks y) {q : Char → Bool}
    (hq : blankChars.any q = false) : y.head?.any q = false := by
  cases y with
  | nil => rfl
  | cons c y => exact eq_false_of_ne_true (List.any_eq_false.1 hq c (isBlankChar_iff.1 (h c rfl)))

theorem isIdentifierPart_blank : blankChars.any isIdentifierPart = false := by decide

theorem isIdentifierStart_blank : blankChars.any isIdentifierStart = false := by decide

theorem isQuote_blank : blankChars.any isQuote = false := by decide

theorem isSign_blank : blankChars.any isSign = false := by decide

theorem isAlphanum_blank : blankChars.any Char.isAlphanum = false := by decide

theorem isDigit_blank : blankChars.any Char.isDigit = false := by decide

theorem isBlankChar_of_any {c : Char} {q : Char → Bool} (hq : blankChars.any q = false)
    (hc : q c = true) : isBlankChar c = false := by
  cases hb : isBlankChar c with
  | false => rfl
  | true => exact absurd hc (List.any_eq_false.1 hq c (isBlankChar_iff.1 hb))

theorem head?_append_congr {p x y : List Char} (hp : p ≠ []) :
    (p ++ x).head? = (p ++ y).head? := by
  cases p with
  | nil => exact absurd rfl hp
  | cons c p => rfl

theorem any_head_recut {q : Char → Bool} {p x y : List Char} (h : (p ++ x).head?.any q = false)
    (hy : y.head?.any q = false) : (p ++ y).head?.any q = false := by
  cases p with
  | nil => exact hy
  | cons c p => exact h

section Number
variable {x y : List Char}

theorem numberUnit_le (cs : List Char) : numberUnit cs ≤ cs.length := by
  cases cs with
  | nil => exact Nat.le_refl _
  | cons c cs =>
    simp only [numberUnit, List.length_cons]
    split
    · next h =>
      cases cs with
      | nil => simp at h
      | cons d ds => simp
    · split
      · omega
      · split <;> omega

theorem numberUnit_congr {c : Char} {cs ds : List Char} (h : cs.head? = ds.head?) :
    numberUnit (c :: cs) = numberUnit (c :: ds) := by
  simp only [numberUnit, h]

def isNumberChar (c : Char) : Bool := c.isAlphanum || c = '_' || c = '.'

theorem numberUnit_break (hy : Breaks y) : numberUnit y = 0 := by
  have hmark := hy.any_head (q := isExponentMark) (by decide)
  have hquote := hy.any_head (q := (· == '\x27')) (by decide)
  have hchar := hy.any_head (q := isNumberChar) (by decide)
  cases y with
  | nil => rfl
  | cons c y => simp_all [numberUnit, isNumberChar]

theorem isBlankChar_of_numberUnit {u r : List Char} (h : numberUnit (u ++ r) = u.length) :
    ∀ c ∈ u, isBlankChar c = false := by
  cases u with
  | nil => simp
  | cons c u =>
    have hc : isBlankChar c = false := by
      cases hb : isBlankChar c with
      | false => rfl
      | true =>
        rw [List.cons_append, numberUnit_break (breaks_cons hb _)] at h
        cases h
    rw [List.cons_append, numberUnit, List.length_cons] at h
    split at h
    · next hmark =>
      obtain ⟨d, rfl⟩ := List.length_eq_one_iff.1 (Nat.succ.inj h).symm
      have hd : isSign d = true := ((Bool.and_eq_true _ _).mp hmark).2
      simp [hc, isBlankChar_of_any isSign_blank hd]
    · have hu : u = [] := by
        split at h
        · simpa using h
        · split at h
          · simpa using h
          · cases h
      simp [hu, hc]

theorem isBlankChar_of_number {t r : List Char} (h : Units numberUnit t r) :
    ∀ c ∈ t, isBlankChar c = false := by
  induction h with
  | nil => simp
  | cons _ hu _ ih =>
    intro c hc
    exact (List.mem_append.1 hc).elim (isBlankChar_of_numberUnit hu c) (ih c)

/-- A character that starts no unit is none that numbers are made of. -/
theorem not_numberChar_of_numberUnit {c : Char} {cs : List Char} (h : numberUnit (c :: cs) = 0) :
    isNumberChar c = false := by
  simp only [numberUnit] at h
  split at h
  · cases h
  · split at h
    · cases h
    · split at h
      · cases h
      · next hc => exact eq_false_of_ne_true hc

theorem any_isAlphanum_of_numberUnit (h : numberUnit x = 0) :
    x.head?.any Char.isAlphanum = false := by
  cases x with
  | nil => rfl
  | cons c x =>
    have hc := not_numberChar_of_numberUnit h
    simp only [isNumberChar, Bool.or_eq_false_iff] at hc
    exact hc.1.1

theorem numberUnit_cons_break (hy : Breaks y) (c : Char) :
    numberUnit (c :: y) = if isNumberChar c then 1 else 0 := by
  have hsign := hy.any_head isSign_blank
  have halnum := hy.any_head isAlphanum_blank
  simp [numberUnit, isNumberChar, hsign, halnum]

theorem numberUnit_recut (hy : Breaks y) {u v : List Char} (hu : u ≠ [])
    (hx : v = [] → x = [] ∨ numberUnit x = 0) (h : numberUnit (u ++ (v ++ x)) = u.length) :
    numberUnit (u ++ (v ++ y)) = u.length := by
  cases u with
  | nil => exact absurd rfl hu
  | cons c u =>
    by_cases huv : u ++ v = []
    · obtain ⟨rfl, rfl⟩ := List.append_eq_nil_iff.1 huv
      have hnext : x.head?.any Char.isAlphanum = false := by
        rcases hx rfl with rfl | hx
        · rfl
        · exact any_isAlphanum_of_numberUnit hx
      have hc : isNumberChar c = true := by
        simp only [List.cons_append, List.nil_append, numberUnit, hnext, Bool.and_false,
          List.length_cons, List.length_nil] at h
        split at h
        · omega
        · split at h
          · next hfalse => cases hfalse
          · split at h
            · next hc => exact hc
            · omega
      simp [numberUnit_cons_break hy, hc]
    · rw [← h, List.cons_append, List.cons_append, ← List.append_assoc, ← List.append_assoc]
      exact numberUnit_congr (head?_append_congr huv)

theorem numberUnit_stop (hy : Breaks y) {p : List Char}
    (h : p ++ x = [] ∨ numberUnit (p ++ x) = 0) : numberUnit (p ++ y) = 0 := by
  cases p with
  | nil => exact numberUnit_break hy
  | cons c p =>
    have hstop : numberUnit (c :: (p ++ x)) = 0 := h.resolve_left (by simp)
    by_cases hp : p = []
    · subst hp
      rw [List.cons_append, List.nil_append, numberUnit_cons_break hy,
        not_numberChar_of_numberUnit hstop]
      rfl
    · rw [List.cons_append, ← hstop]
      exact numberUnit_congr (head?_append_congr hp)

theorem number_recut {c : Char} {v p t : List Char} {kind : TokenKind}
    (h : number c (v ++ x) = ⟨.ok kind, t, p ++ x⟩) (hv : c :: v = t ++ p) (hy : Breaks y) :
    number c (v ++ y) = ⟨.ok kind, t, p ++ y⟩ := by
  simp only [number, Scan.mk.injEq, Except.ok.injEq] at h
  obtain ⟨hkind, ht, hrest⟩ := h
  obtain ⟨b, hb⟩ : ∃ b, b = (spanUnits numberUnit (v ++ x)).1 := ⟨_, rfl⟩
  rw [← hb] at hkind ht
  subst ht
  obtain rfl : v = b ++ p := (List.cons.inj hv).2
  have hspan : spanUnits numberUnit (b ++ p ++ x) = (b, p ++ x) := Prod.ext hb.symm hrest
  have hunits := units_of_spanUnits hspan (.inl numberUnit_le)
  have hstop : p ++ x = [] ∨ numberUnit (p ++ x) = 0 := by
    by_cases hnil : p ++ x = []
    · exact .inl hnil
    · right
      have := unit_spanUnits_snd numberUnit (b ++ p ++ x) (by rw [hspan]; exact hnil)
      rwa [hspan] at this
  have hunits' : Units numberUnit b (p ++ y) := by
    refine hunits.recut (fun u v hu _ _ hx hunit => numberUnit_recut hy hu hx hunit) ?_
    rintro rfl
    exact hstop
  have hspan' := hunits'.spanUnits_eq (.inr (numberUnit_stop hy hstop))
  rw [number, List.append_assoc, hspan', ← hkind]

/-- A point starts a number only together with the digit after it, which the number takes. -/
theorem startsNumber_of_number {c : Char} {v p t : List Char} {kind : TokenKind}
    (h : number c (v ++ x) = ⟨.ok kind, t, p ++ x⟩) (hv : c :: v = t ++ p)
    (hn : startsNumber c (v ++ x) = true) : startsNumber c (v ++ y) = true := by
  simp only [startsNumber, Bool.or_eq_true, Bool.and_eq_true] at hn ⊢
  rcases hn with hn | ⟨hdot, hn⟩
  · exact .inl hn
  · refine .inr ⟨hdot, ?_⟩
    by_cases hnil : v = []
    · subst hnil
      obtain ⟨_, ht, hrest⟩ := Scan.mk.inj h
      have hp : p = [] := by
        rw [← ht] at hv
        exact (List.append_eq_nil_iff.1 (List.cons.inj hv).2.symm).2
      rw [hp, List.nil_append] at hrest
      cases x with
      | nil => cases hn
      | cons d x =>
        have hstop := unit_spanUnits_snd numberUnit (d :: x) (by rw [hrest]; simp)
        rw [hrest] at hstop
        have hd : d.isDigit = true := hn
        have hnot : d.isAlphanum = false := any_isAlphanum_of_numberUnit hstop
        rw [Char.isAlphanum, hd, Bool.or_true] at hnot
        cases hnot
    · rw [← head?_append_congr hnil (x := x)]
      exact hn

theorem startsNumber_break {c : Char} {v : List Char} (hn : startsNumber c (v ++ x) = false)
    (hy : Breaks y) : startsNumber c (v ++ y) = false := by
  simp only [startsNumber, Bool.or_eq_false_iff, Bool.and_eq_false_iff] at hn ⊢
  refine ⟨hn.1, hn.2.imp_right fun h => any_head_recut h (hy.any_head isDigit_blank)⟩

end Number

/-- Where a run of characters ends is told by the characters and by the next one. -/
theorem takeWhile_append_stop {q : Char → Bool} {w r : List Char} (hw : ∀ c ∈ w, q c = true)
    (hr : r.head?.any q = false) : (w ++ r).takeWhile q = w ∧ (w ++ r).dropWhile q = r := by
  rw [List.takeWhile_append_of_pos hw, List.dropWhile_append_of_pos hw]
  cases r with
  | nil => simp
  | cons c r =>
    have hc : q c = false := hr
    simp [hc]

theorem any_head_dropWhile (q : Char → Bool) (cs : List Char) :
    (cs.dropWhile q).head?.any q = false := by
  induction cs with
  | nil => rfl
  | cons c cs ih =>
    cases hc : q c with
    | true => simpa [hc] using ih
    | false => simp [hc]

section Literal
variable {x y : List Char}

theorem takeWhile_ne_nil_of_start {cs : List Char} (h : cs.head?.any isIdentifierStart = true) :
    cs.takeWhile isIdentifierPart ≠ [] := by
  cases cs with
  | nil => simp at h
  | cons c cs => simp [isIdentifierPart_of_start (c := c) h]

theorem isBlankChar_of_suffix (cs : List Char) : ∀ c ∈ (suffix cs).1, isBlankChar c = false := by
  unfold suffix
  split
  · intro c hc
    exact isBlankChar_of_any isIdentifierPart_blank (List.all_eq_true.1 List.all_takeWhile c hc)
  · simp

theorem suffix_recut {s p : List Char} (h : suffix (s ++ (p ++ x)) = (s, p ++ x))
    (hy : Breaks y) : suffix (s ++ (p ++ y)) = (s, p ++ y) := by
  have hpart := hy.any_head isIdentifierPart_blank
  have hstart := hy.any_head isIdentifierStart_blank
  unfold suffix at h
  split at h
  · next hs =>
    obtain ⟨htake, hdrop⟩ := Prod.mk.inj h
    have hw : ∀ c ∈ s, isIdentifierPart c = true := by
      intro c hc
      rw [← htake] at hc
      exact List.all_eq_true.1 List.all_takeWhile c hc
    have hne : s ≠ [] := by
      rw [← htake]
      exact takeWhile_ne_nil_of_start hs
    have hstop : (p ++ x).head?.any isIdentifierPart = false := by
      rw [← hdrop]
      exact any_head_dropWhile _ _
    obtain ⟨htake', hdrop'⟩ := takeWhile_append_stop hw (any_head_recut hstop hpart)
    rw [suffix, ← head?_append_congr hne (x := p ++ x), if_pos hs, htake', hdrop']
  · next hs =>
    obtain ⟨rfl, _⟩ := Prod.mk.inj h
    have hs' := any_head_recut (p := p) (eq_false_of_ne_true hs) hstart
    rw [suffix, if_neg]
    · rfl
    · rw [List.nil_append, hs']
      simp

theorem quoted_of_spanUnits {cs b s r r' : List Char} {quote : Char} (opening : List Char)
    (hspan : spanUnits (quotedUnit quote) cs = (b, quote :: r)) (hs : suffix r = (s, r')) :
    quoted opening quote cs = ⟨.ok (literalKind quote), opening ++ (b ++ quote :: s), r'⟩ := by
  simp [quoted, hspan, hs]

theorem spanUnits_of_quoted {opening cs t r' : List Char} {quote : Char} {kind : TokenKind}
    (h : quoted opening quote cs = ⟨.ok kind, t, r'⟩) :
    ∃ b s r, spanUnits (quotedUnit quote) cs = (b, quote :: r) ∧ suffix r = (s, r') ∧
      kind = literalKind quote ∧ t = opening ++ (b ++ quote :: s) := by
  obtain ⟨b, r, hspan⟩ : ∃ b r, spanUnits (quotedUnit quote) cs = (b, r) := ⟨_, _, rfl⟩
  simp only [quoted, hspan] at h
  split at h
  · cases h
  · next c r =>
    split at h
    · next hc =>
      subst hc
      cases h
      exact ⟨b, _, r, hspan, rfl, rfl, rfl⟩
    · cases h

theorem quoted_recut {opening v p t : List Char} {quote : Char} {kind : TokenKind}
    (h : quoted opening quote (v ++ x) = ⟨.ok kind, t, p ++ x⟩) (hv : opening ++ v = t ++ p)
    (hy : Breaks y) : quoted opening quote (v ++ y) = ⟨.ok kind, t, p ++ y⟩ := by
  obtain ⟨b, s, r, hspan, hsuffix, rfl, rfl⟩ := spanUnits_of_quoted h
  obtain rfl : r = s ++ (p ++ x) := by
    rw [← suffix_append r, hsuffix]
  -- the literal ends in front of the cut, so what is read up to there is the same
  obtain rfl : v = b ++ quote :: (s ++ p) := by simpa using hv
  have hunits : Units (quotedUnit quote) b (quote :: (s ++ p) ++ x) := by
    simpa using units_of_spanUnits hspan (.inr (by simp))
  have hstop : quotedUnit quote (quote :: (s ++ p) ++ y) = 0 := by
    have := unit_spanUnits_snd (quotedUnit quote) _ (by rw [hspan]; simp)
    rw [hspan] at this
    exact this
  have hunits' : Units (quotedUnit quote) b (quote :: (s ++ p) ++ y) := by
    refine hunits.recut ?_ (by simp)
    intro u v hu _ _ _ hunit
    cases u with
    | nil => exact absurd rfl hu
    | cons d u => exact hunit
  have hspan' := hunits'.spanUnits_eq (.inr hstop)
  rw [List.append_assoc]
  rw [List.cons_append, List.append_assoc s p y] at hspan' ⊢
  exact quoted_of_spanUnits opening hspan' (suffix_recut hsuffix hy)

theorem rawBody_of_spanUnits {closing cs b s r r' : List Char} (opening : List Char)
    (hspan : spanUnits (untilUnit closing) cs = (b, closing ++ r)) (hc : closing ≠ [])
    (hs : suffix r = (s, r')) :
    rawBody opening closing cs = ⟨.ok .string, opening ++ (b ++ (closing ++ s)), r'⟩ := by
  simp [rawBody, hspan, hc, hs]

theorem spanUnits_of_rawBody {opening closing cs t r' : List Char} {kind : TokenKind}
    (h : rawBody opening closing cs = ⟨.ok kind, t, r'⟩) :
    ∃ b s r, spanUnits (untilUnit closing) cs = (b, closing ++ r) ∧ suffix r = (s, r') ∧
      kind = .string ∧ t = opening ++ (b ++ (closing ++ s)) := by
  unfold rawBody at h
  dsimp only at h
  split at h
  · cases h
  · next hne =>
    have hstop := unit_spanUnits_snd (untilUnit closing) cs (by simpa using hne)
    cases h
    refine ⟨_, _, _, ?_, rfl, rfl, rfl⟩
    rw [append_drop_of_untilUnit hstop]

theorem rawBody_recut {opening closing v p t : List Char} {kind : TokenKind}
    (h : rawBody opening closing (v ++ x) = ⟨.ok kind, t, p ++ x⟩) (hc : closing ≠ [])
    (hv : opening ++ v = t ++ p) (hy : Breaks y) :
    rawBody opening closing (v ++ y) = ⟨.ok kind, t, p ++ y⟩ := by
  obtain ⟨b, s, r, hspan, hsuffix, rfl, rfl⟩ := spanUnits_of_rawBody h
  obtain rfl : r = s ++ (p ++ x) := by
    rw [← suffix_append r, hsuffix]
  obtain rfl : v = b ++ (closing ++ (s ++ p)) := by simpa using hv
  refine rawBody_of_spanUnits opening ?_ hc (suffix_recut hsuffix hy)
  rw [List.append_assoc, List.append_assoc, List.append_assoc] at hspan ⊢
  exact spanUnits_until_recut hspan hc

theorem delimiter_recut {used : Nat} {cs d r : List Char} (h : delimiter used cs = (d, '(' :: r))
    (z : List Char) : delimiter used (d ++ '(' :: z) = (d, '(' :: z) := by
  induction cs generalizing used d with
  | nil => cases h
  | cons c cs ih =>
    unfold delimiter at h
    split at h
    · next hc =>
      obtain ⟨e, he⟩ : ∃ e, e = (delimiter (used + c.utf8Size) cs).1 := ⟨_, rfl⟩
      obtain ⟨rfl, hr⟩ := Prod.mk.inj h
      have hrest := ih (d := e) (Prod.ext he.symm hr)
      rw [← he, List.cons_append, delimiter, if_pos hc, hrest]
    · next hc =>
      cases h
      rw [List.nil_append, delimiter, if_neg]
      simp [isDelimiterChar]

theorem raw_recut {opening v p t : List Char} {kind : TokenKind}
    (h : raw opening (v ++ x) = ⟨.ok kind, t, p ++ x⟩) (hv : opening ++ v = t ++ p)
    (hy : Breaks y) : raw opening (v ++ y) = ⟨.ok kind, t, p ++ y⟩ := by
  obtain ⟨d, r, hd⟩ : ∃ d r, delimiter 0 (v ++ x) = (d, r) := ⟨_, _, rfl⟩
  have happ := delimiter_append 0 (v ++ x)
  simp only [raw, hd] at h happ
  split at h
  · next r =>
    obtain ⟨b, s, _, _, _, _, ht⟩ := spanUnits_of_rawBody h
    obtain rfl : v = d ++ '(' :: (b ++ (')' :: (d ++ ['\x22']) ++ s) ++ p) := by
      rw [ht] at hv
      simpa using hv
    obtain rfl : r = b ++ (')' :: (d ++ ['\x22']) ++ s) ++ p ++ x := by
      simpa using happ
    have hbody := rawBody_recut h (by simp) (by rw [ht]; simp) hy
    have hd' := delimiter_recut hd (b ++ (')' :: (d ++ ['\x22']) ++ s) ++ p ++ y)
    rw [List.append_assoc, List.cons_append]
    simp only [raw, hd']
    exact hbody
  · cases h

theorem opening_of_raw {opening cs t r : List Char} {kind : TokenKind}
    (h : raw opening cs = ⟨.ok kind, t, r⟩) : ∃ z, t = opening ++ z := by
  unfold raw at h
  dsimp only at h
  split at h
  · obtain ⟨b, s, _, _, _, _, rfl⟩ := spanUnits_of_rawBody h
    exact ⟨_, List.append_assoc _ _ _⟩
  · cases h

end Literal

section Word
variable {x y : List Char}

theorem exists_word (cs : List Char) :
    ∃ w r, cs = w ++ r ∧ (∀ c ∈ w, isIdentifierPart c = true) ∧
      r.head?.any isIdentifierPart = false := by
  refine ⟨cs.takeWhile isIdentifierPart, cs.dropWhile isIdentifierPart,
    List.takeWhile_append_dropWhile.symm, ?_, any_head_dropWhile _ _⟩
  intro c hc
  exact List.all_eq_true.1 List.all_takeWhile c hc

theorem word_nil {w : List Char} (hw : ∀ c ∈ w, isIdentifierPart c = true) :
    word w = ⟨wordKind w, w, []⟩ := by
  obtain ⟨htake, hdrop⟩ := takeWhile_append_stop (r := []) hw rfl
  rw [List.append_nil] at htake hdrop
  simp only [word, htake, hdrop]

theorem word_cons {w r : List Char} {q : Char} (hw : ∀ c ∈ w, isIdentifierPart c = true)
    (hq : isIdentifierPart q = false) :
    word (w ++ q :: r) =
      if isQuote q && quotedMarks.contains w then quoted (w ++ [q]) q r
      else if q = '\x22' && rawMarks.contains w then raw (w ++ [q]) r
      else ⟨wordKind w, w, q :: r⟩ := by
  obtain ⟨htake, hdrop⟩ := takeWhile_append_stop (r := q :: r) hw hq
  simp only [word, htake, hdrop]

theorem word_break {w : List Char} (hw : ∀ c ∈ w, isIdentifierPart c = true) (hy : Breaks y) :
    word (w ++ y) = ⟨wordKind w, w, y⟩ := by
  have hpart := hy.any_head isIdentifierPart_blank
  have hquote := hy.any_head isQuote_blank
  cases y with
  | nil => rw [List.append_nil, word_nil hw]
  | cons c y =>
    have hc : isQuote c = false := hquote
    have hne : c ≠ '\x22' := by
      rintro rfl
      cases hc
    simp [word_cons hw hpart, hc, hne]

/-- A literal that goes past its opening quote has the quote in front of the cut. -/
theorem exists_after_opening {u w d p t z : List Char} {q : Char} (happ : u ++ x = w ++ q :: d)
    (hu : u = t ++ p) (ht : t = w ++ [q] ++ z) : ∃ v, u = w ++ q :: v ∧ d = v ++ x := by
  have huv : u = w ++ q :: (z ++ p) := by rw [hu, ht]; simp
  refine ⟨z ++ p, huv, ?_⟩
  rw [huv] at happ
  simpa using happ.symm

theorem word_recut {u p t : List Char} {kind : TokenKind}
    (h : word (u ++ x) = ⟨.ok kind, t, p ++ x⟩) (hu : u = t ++ p) (hy : Breaks y) :
    word (u ++ y) = ⟨.ok kind, t, p ++ y⟩ := by
  obtain ⟨w, d, happ, hw, hd⟩ := exists_word (u ++ x)
  rw [happ] at h
  cases d with
  | nil =>
    rw [List.append_nil, word_nil hw] at h
    obtain ⟨hkind, rfl, hnil⟩ := Scan.mk.inj h
    obtain ⟨rfl, rfl⟩ := List.append_eq_nil_iff.1 hnil.symm
    rw [hu, List.append_nil, word_break hw hy, hkind, List.nil_append]
  | cons q r =>
    have hq : isIdentifierPart q = false := hd
    rw [word_cons hw hq] at h
    split at h
    · next hmark =>
      obtain ⟨b, s, _, _, _, _, ht⟩ := spanUnits_of_quoted h
      obtain ⟨v, hv, rfl⟩ := exists_after_opening happ hu ht
      rw [hv, List.append_assoc, List.cons_append, word_cons hw hq, if_pos hmark]
      exact quoted_recut h (by rw [← hu, hv]; simp) hy
    · next hmark =>
      split at h
      · next hraw =>
        obtain ⟨z, ht⟩ := opening_of_raw h
        obtain ⟨v, hv, rfl⟩ := exists_after_opening happ hu ht
        rw [hv, List.append_assoc, List.cons_append, word_cons hw hq, if_neg hmark, if_pos hraw]
        exact raw_recut h (by rw [← hu, hv]; simp) hy
      · next hraw =>
        obtain ⟨hkind, rfl, hrest⟩ := Scan.mk.inj h
        cases p with
        | nil => rw [hu, List.append_nil, word_break hw hy, hkind, List.nil_append]
        | cons c p =>
          obtain ⟨rfl, hr⟩ := List.cons.inj hrest
          rw [hu, List.append_assoc, List.cons_append, word_cons hw hq, if_neg hmark, if_neg hraw,
            hkind]

end Word

section Symbol
variable {x y : List Char}

theorem symbols_unblank : ∀ s ∈ symbols, s.1.any isBlankChar = false := by decide

theorem prefix_of_prefix_break {s u : List Char} (hs : s.any isBlankChar = false)
    (h : s <+: u ++ y) (hy : Breaks y) : s <+: u := by
  rcases Nat.le_total s.length u.length with hle | hle
  · exact List.prefix_of_prefix_length_le h (List.prefix_append u y) hle
  · obtain ⟨r, rfl⟩ := List.prefix_of_prefix_length_le (List.prefix_append u y) h hle
    cases r with
    | nil => simp
    | cons c r =>
      have hc : c ∈ y.head? := by
        obtain ⟨z, hz⟩ := (List.prefix_append_right_inj u).1 h
        rw [← hz]
        rfl
      exact absurd (hy c hc) (List.any_eq_false.1 hs c (by simp))

theorem symbol_recut {c : Char} {v p t : List Char} {kind : TokenKind}
    (h : symbol c (v ++ x) = ⟨.ok kind, t, p ++ x⟩) (hv : c :: v = t ++ p) (hy : Breaks y) :
    symbol c (v ++ y) = ⟨.ok kind, t, p ++ y⟩ := by
  unfold symbol at h
  split at h
  · next s hs =>
    obtain ⟨hs, before, after, hsplit, hbefore⟩ := List.find?_eq_some_iff_append.1 hs
    obtain ⟨hkind, ht, _⟩ := Scan.mk.inj h
    have hst : s.1 = t := by
      rw [← ht]
      exact List.prefix_iff_eq_take.1 (List.isPrefixOf_iff_prefix.1 hs)
    have hfind : symbols.find? (fun s => s.1.isPrefixOf (c :: (v ++ y))) = some s := by
      refine List.find?_eq_some_iff_append.2 ⟨?_, before, after, hsplit, ?_⟩
      · rw [List.isPrefixOf_iff_prefix, ← List.cons_append, hv, hst, List.append_assoc]
        exact List.prefix_append _ _
      · intro a ha
        have hblank := symbols_unblank a (by rw [hsplit]; simp [ha])
        have hnot := hbefore a ha
        simp only [Bool.not_eq_true', ← Bool.not_eq_true, List.isPrefixOf_iff_prefix,
          ← List.cons_append] at hnot ⊢
        intro hpre
        exact hnot ((prefix_of_prefix_break hblank hpre hy).trans (List.prefix_append _ _))
    rw [symbol, hfind]
    simp only [hst, ← List.cons_append, hv, List.append_assoc, List.take_left, List.drop_left,
      hkind]
  · cases h

end Symbol

/-- The same token is read when the text behind it changes only from a break on. -/
theorem token_recut {c : Char} {v x y p t : List Char} {kind : TokenKind}
    (h : token c (v ++ x) = ⟨.ok kind, t, p ++ x⟩) (hv : c :: v = t ++ p) (hy : Breaks y) :
    token c (v ++ y) = ⟨.ok kind, t, p ++ y⟩ := by
  unfold token at h ⊢
  split at h
  · next hn =>
    rw [if_pos (startsNumber_of_number h hv hn)]
    exact number_recut h hv hy
  · next hn =>
    have hn' := startsNumber_break (eq_false_of_ne_true hn) hy
    rw [if_neg (by simp [hn'])]
    split at h
    · next hi =>
      rw [if_pos hi, ← List.cons_append]
      exact word_recut h hv hy
    · next hi =>
      rw [if_neg hi]
      split at h
      · next hq =>
        rw [if_pos hq]
        exact quoted_recut h hv hy
      · next hq =>
        rw [if_neg hq]
        exact symbol_recut h hv hy

theorem triviaKind?_break {v y : List Char} (hv : v ≠ []) (hy : Breaks y) (lineStart : Bool) :
    triviaKind? lineStart (v ++ y) = triviaKind? lineStart v := by
  have hslash := hy.any_head (q := (· == '/')) (by decide)
  have hstar := hy.any_head (q := (· == '*')) (by decide)
  match v with
  | [c] => cases y <;> simp_all [triviaKind?_cons]
  | c :: d :: v => simp [triviaKind?_cons]

end SourceOutline.Lexeme
