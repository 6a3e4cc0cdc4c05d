import SourceOutline.Json.Reader

/-! The reader of JSON texts inverts the writer.
Strings come back character by character through their escapes, naturals digit by digit, and
arrays and objects item by item. Hence a value is determined by its compact text. -/
namespace SourceOutline.Json
open Text (hexValue?)

variable {c d : Char} {cs rest taken : List Char} {fuel n : Nat}

section Strings

theorem hexValue?_hexDigit (n : Nat) : hexValue? (hexDigit n) = some (n % 16) := by
  have hall : ∀ m < 16, hexValue? (Nat.digitChar m) = some m := by decide
  exact hall (n % 16) (Nat.mod_lt n (by decide))

theorem hex4?_control (h : n < 0x20) :
    hex4? '0' '0' (hexDigit (n / 16)) (hexDigit n) = some n := by
  have hzero : hexValue? '0' = some 0 := by decide
  have hvalue : (0 * 16 + 0) * 256 + n / 16 % 16 * 16 + n % 16 = n := by omega
  simp only [hex4?, hexValue?_hexDigit, hzero, Option.pure_def, Option.bind_eq_bind,
    Option.bind_some, hvalue]

/-- A character is written by a short escape, by its number, or as it is. -/
theorem escape_cases (c : Char) :
    (∃ e, escape c = ['\\', e] ∧ e ≠ 'u' ∧ escaped? e = some c) ∨
    (c.toNat < 0x20 ∧
      escape c = ['\\', 'u', '0', '0', hexDigit (c.toNat / 16), hexDigit c.toNat]) ∨
    (c ≠ '\x22' ∧ c ≠ '\\' ∧ ¬ c.toNat < 0x20 ∧ escape c = [c]) := by
  by_cases hshort : c ∈ ['\x22', '\\', '\x08', '\x0c', '\n', '\r', '\t']
  · simp only [List.mem_cons, List.not_mem_nil, or_false] at hshort
    obtain rfl | rfl | rfl | rfl | rfl | rfl | rfl := hshort <;>
      exact .inl ⟨_, rfl, by decide, rfl⟩
  · simp only [List.mem_cons, List.not_mem_nil, or_false, not_or] at hshort
    obtain ⟨hq, hb, hback, hfeed, hline, hreturn, htab⟩ := hshort
    by_cases hcontrol : c.toNat < 0x20 <;>
      simp [escape, hq, hb, hback, hfeed, hline, hreturn, htab, hcontrol]

theorem readString_short {e : Char} (hu : e ≠ 'u') (he : escaped? e = some c) :
    readString none (some taken) ('\\' :: e :: cs) = readString none (some (c :: taken)) cs := by
  rw [readString, he]
  · rfl
  · exact fun _ _ _ _ _ h => absurd h hu

theorem readString_control (hc : c.toNat < 0x20) :
    readString none (some taken)
      ('\\' :: 'u' :: '0' :: '0' :: hexDigit (c.toNat / 16) :: hexDigit c.toNat :: cs) =
      readString none (some (c :: taken)) cs := by
  have hlead : isLeading c.toNat = false := by simp [isLeading]; omega
  have htrail : isTrailing c.toNat = false := by simp [isTrailing]; omega
  rw [readString, hex4?_control hc]
  simp only [hlead, htrail, Char.ofNat_toNat, Option.map_some, Bool.false_eq_true, if_false]

theorem readString_plain (hq : c ≠ '\x22') (hb : c ≠ '\\') (hc : ¬ c.toNat < 0x20) :
    readString none (some taken) (c :: cs) = readString none (some (c :: taken)) cs := by
  have hstays : ¬ (decide (c.toNat < 0x20) || decide (c = '\\')) = true := by simp [hc, hb]
  rw [readString, if_neg hq, if_neg hstays]
  · rfl
  · exact fun _ _ _ _ _ h => absurd h hb
  · exact fun _ _ h => absurd h hb

theorem readString_escape (c : Char) :
    readString none (some taken) (escape c ++ cs) = readString none (some (c :: taken)) cs := by
  obtain ⟨e, hc, hu, he⟩ | ⟨hlt, hc⟩ | ⟨hq, hb, hge, hc⟩ := escape_cases c <;> rw [hc]
  · exact readString_short hu he
  · exact readString_control hlt
  · exact readString_plain hq hb hge

theorem readString_escapes (s : List Char) :
    readString none (some taken) (s.flatMap escape ++ '\x22' :: rest) =
      some (some (String.ofList (taken.reverse ++ s)), rest) := by
  induction s generalizing taken with
  | nil => simp [readString]
  | cons c s ih => simp [readString_escape, ih]

theorem readString_quote (s : Option String) (rest : List Char) :
    ∃ cs, quote s = '\x22' :: cs ∧ readString none (some []) (cs ++ rest) = some (s, rest) := by
  cases s with
  | none =>
    have hlone : hex4? 'd' '8' '0' '0' = some 0xd800 := by decide
    refine ⟨['\\', 'u', 'd', '8', '0', '0', '\x22'], by decide, ?_⟩
    simp [readString, hlone, isLeading]
  | some s => exact ⟨_, rfl, by simp [readString_escapes]⟩

end Strings

section Numbers

/-- What may follow a number: anything that does not prolong it. -/
def Stops (rest : List Char) : Prop :=
  ∀ c ∈ rest.head?, c.isDigit = false ∧ c ≠ '.' ∧ c ≠ 'e' ∧ c ≠ 'E'

theorem Stops.readFraction (h : Stops rest) : readFraction rest = some (false, rest) := by
  cases rest with
  | nil => rfl
  | cons c cs =>
    obtain ⟨-, hdot, he, hE⟩ := h c rfl
    rw [Json.readFraction]
    · simp [readExponent, he, hE]
    · rintro _ ⟨rfl, -⟩
      exact hdot rfl

theorem isDigit_of_mem_digits (h : c ∈ digits n) : c.isDigit :=
  Nat.isDigit_of_mem_toDigits (by decide) (by decide) h

theorem digits_eq_cons (n : Nat) : ∃ d ds, digits n = d :: ds ∧ d.isDigit := by
  have hne : digits n ≠ [] := Nat.toDigits_ne_nil
  obtain ⟨d, ds, h⟩ := List.exists_cons_of_ne_nil hne
  have hd : d ∈ digits n := by simp [h]
  exact ⟨d, ds, h, isDigit_of_mem_digits hd⟩

theorem Stops.takeWhile_digits (h : Stops rest) (n : Nat) :
    (digits n ++ rest).takeWhile Char.isDigit = digits n := by
  rw [List.takeWhile_append_of_pos fun _ => isDigit_of_mem_digits]
  cases rest with
  | nil => simp
  | cons c cs => simp [(h c rfl).1]

theorem Stops.dropWhile_digits (h : Stops rest) (n : Nat) :
    (digits n ++ rest).dropWhile Char.isDigit = rest := by
  rw [List.dropWhile_append_of_pos fun _ => isDigit_of_mem_digits]
  cases rest with
  | nil => rfl
  | cons c cs => simp [(h c rfl).1]

theorem digitsValue_digits (n : Nat) : digitsValue (digits n) = n := by
  have hfold : digitsValue (digits n) = Nat.ofDigitChars 10 (digits n) 0 := by
    simp only [digitsValue, Nat.ofDigitChars_eq_foldl, Nat.mul_comm 10]
    rfl
  rw [hfold]
  exact Nat.ofDigitChars_ten_toDigits

theorem head?_digits_ne_zero (hn : 0 < n) : (digits n).head? ≠ some '0' := by
  induction n using Nat.base_induction 10 (by decide) with
  | single m hm =>
    have hall : ∀ m < 10, 0 < m → Nat.digitChar m ≠ '0' := by decide
    rw [digits, Nat.toDigits_of_lt_base hm]
    simpa using hall m hm hn
  | digit m k hk hm ih =>
    have hhead := ih hm
    rw [digits] at hhead ⊢
    rw [← Nat.toDigits_append_toDigits (by decide) hm hk]
    simpa [List.head?_append] using hhead

theorem digits_tail_eq_nil (h : digits n = '0' :: cs) : cs = [] := by
  obtain rfl | hn := Nat.eq_zero_or_pos n
  · rw [digits, Nat.toDigits_zero] at h
    exact (List.cons.inj h).2.symm
  · exact absurd (by rw [h]; rfl) (head?_digits_ne_zero hn)

theorem readNumber_digits (h : Stops rest) (n : Nat) :
    readNumber (digits n ++ rest) = some (number (some n), rest) := by
  rw [readNumber, h.takeWhile_digits, h.dropWhile_digits, h.readFraction]
  have hvalue := digitsValue_digits n
  obtain ⟨d, ds, hdigits, -⟩ := digits_eq_cons n
  have hlead : ¬ (decide (d = '0') && !ds.isEmpty) = true := by
    intro h
    simp only [Bool.and_eq_true, decide_eq_true_eq, Bool.not_eq_true'] at h
    obtain ⟨rfl, hmore⟩ := h
    simp [digits_tail_eq_nil hdigits] at hmore
  rw [hdigits] at hvalue ⊢
  simp only [if_neg hlead, hvalue]
  rfl

end Numbers

section Values

theorem readValue_digit (hd : d.isDigit) :
    readValue (fuel + 1) (d :: cs) = readNumber (d :: cs) := by
  rw [readValue.eq_def]
  split <;> simp_all

theorem skipSpace_cons (h : isSpace c = false) : skipSpace (c :: cs) = c :: cs := by
  simp [skipSpace, h]

/-- A written value starts with a character that is no blank and closes no array. -/
theorem write_head (j : Json) : ∃ c cs, j.write = c :: cs ∧ isSpace c = false ∧ c ≠ ']' := by
  have hdigit : ∀ c : Char, c.isDigit → isSpace c = false ∧ c ≠ ']' := by
    intro c hc
    constructor
    · refine Bool.eq_false_iff.2 fun hspace => ?_
      simp only [isSpace, Bool.or_eq_true, decide_eq_true_eq] at hspace
      obtain ((rfl | rfl) | rfl) | rfl := hspace <;> simp at hc
    · rintro rfl
      simp at hc
  cases j with
  | null => exact ⟨_, _, rfl, by decide, by decide⟩
  | bool b => cases b <;> exact ⟨_, _, rfl, by decide, by decide⟩
  | number n =>
    cases n with
    | none => exact ⟨_, _, rfl, by decide, by decide⟩
    | some n =>
      obtain ⟨d, ds, hdigits, hd⟩ := digits_eq_cons n
      exact ⟨d, ds, hdigits, hdigit d hd⟩
  | string s =>
    obtain ⟨cs, hcs, -⟩ := readString_quote s []
    exact ⟨_, cs, hcs, by decide, by decide⟩
  | array items => exact ⟨_, _, rfl, by decide, by decide⟩
  | object fields => exact ⟨_, _, rfl, by decide, by decide⟩

theorem skipSpace_write (j : Json) : skipSpace (j.write ++ rest) = j.write ++ rest := by
  obtain ⟨c, cs, hj, hc, -⟩ := write_head j
  rw [hj]
  exact skipSpace_cons hc

theorem writeItems_head (v : Json) (vs : List Json) :
    ∃ c cs, writeItems (v :: vs) = c :: cs ∧ isSpace c = false ∧ c ≠ ']' := by
  obtain ⟨c, cs, hv, hc⟩ := write_head v
  cases vs with
  | nil => exact ⟨c, cs, by rw [writeItems, hv], hc⟩
  | cons w vs => exact ⟨c, _, by rw [writeItems, hv]; rfl, hc⟩

theorem writeFields_head (f : Option String × Json) (fs : List (Option String × Json)) :
    ∃ cs, writeFields (f :: fs) = '\x22' :: cs := by
  obtain ⟨cs, hk, -⟩ := readString_quote f.1 []
  cases fs with
  | nil => exact ⟨_, by rw [writeFields, hk]; rfl⟩
  | cons g fs => exact ⟨_, by rw [writeFields, hk]; rfl⟩

structure ReadsBack (fuel : Nat) : Prop where
  value : ∀ (j : Json) (rest : List Char), j.write.length < fuel → Stops rest →
    readValue fuel (j.write ++ rest) = some (j, rest)
  items : ∀ (v : Json) (vs : List Json) (rest : List Char),
    (writeItems (v :: vs)).length + 1 < fuel →
    readItems fuel (writeItems (v :: vs) ++ ']' :: rest) = some (v :: vs, rest)
  fields : ∀ (f : Option String × Json) (fs : List (Option String × Json)) (rest : List Char),
    (writeFields (f :: fs)).length + 1 < fuel →
    readFields fuel (writeFields (f :: fs) ++ '\x7d' :: rest) = some (f :: fs, rest)

theorem ReadsBack.readValue_array (h : ReadsBack fuel) (items : List Json)
    (hfuel : (array items).write.length < fuel + 1) :
    readValue (fuel + 1) ((array items).write ++ rest) = some (array items, rest) := by
  cases items with
  | nil => rfl
  | cons v vs =>
    have hitems := h.items v vs rest (by simp [write] at hfuel; omega)
    obtain ⟨c, cs, hhead, hspace, hclose⟩ := writeItems_head v vs
    rw [hhead] at hitems
    simp only [write, hhead, List.cons_append, List.append_assoc, List.nil_append] at hitems ⊢
    rw [readValue, skipSpace_cons hspace]
    split
    · next hcs => exact absurd (List.cons.inj hcs).1 hclose
    · rw [hitems]; rfl

theorem ReadsBack.readValue_object (h : ReadsBack fuel) (fields : List (Option String × Json))
    (hfuel : (object fields).write.length < fuel + 1) :
    readValue (fuel + 1) ((object fields).write ++ rest) = some (object fields, rest) := by
  cases fields with
  | nil => rfl
  | cons f fs =>
    have hfields := h.fields f fs rest (by simp [write] at hfuel; omega)
    obtain ⟨cs, hhead⟩ := writeFields_head f fs
    rw [hhead] at hfields
    simp only [write, hhead, List.cons_append, List.append_assoc, List.nil_append] at hfields ⊢
    rw [readValue, skipSpace_cons (by decide)]
    split
    · next hcs => exact absurd (List.cons.inj hcs).1 (by decide)
    · rw [hfields]; rfl

theorem ReadsBack.value_succ (h : ReadsBack fuel) (j : Json) (hfuel : j.write.length < fuel + 1)
    (hrest : Stops rest) : readValue (fuel + 1) (j.write ++ rest) = some (j, rest) := by
  cases j with
  | null => rfl
  | bool b => cases b <;> rfl
  | number n =>
    cases n with
    | none =>
      have hone := readNumber_digits hrest 1
      change (readNumber (digits 1 ++ rest)).map _ = _
      rw [hone]
      rfl
    | some n =>
      have hnumber := readNumber_digits hrest n
      obtain ⟨d, ds, hdigits, hd⟩ := digits_eq_cons n
      rw [write, ← hnumber, hdigits]
      exact readValue_digit hd
  | string s =>
    obtain ⟨cs, hs, hread⟩ := readString_quote s rest
    rw [write, hs, List.cons_append, readValue, hread]
    rfl
  | array items => exact h.readValue_array items hfuel
  | object fields => exact h.readValue_object fields hfuel

theorem stops_cons (h : c = ',' ∨ c = ']' ∨ c = '\x7d') : Stops (c :: cs) := by
  rintro _ ⟨⟩
  obtain rfl | rfl | rfl := h <;> decide

theorem ReadsBack.items_succ (h : ReadsBack fuel) (v : Json) (vs : List Json)
    (hfuel : (writeItems (v :: vs)).length + 1 < fuel + 1) :
    readItems (fuel + 1) (writeItems (v :: vs) ++ ']' :: rest) = some (v :: vs, rest) := by
  cases vs with
  | nil =>
    rw [writeItems] at hfuel ⊢
    rw [readItems, h.value v _ (by omega) (stops_cons (by simp))]
    rfl
  | cons w vs =>
    simp only [writeItems, List.append_assoc, List.length_append, List.length_cons,
      List.cons_append] at hfuel ⊢
    have hmore := h.items w vs rest (by omega)
    obtain ⟨c, cs, hhead, hspace, -⟩ := writeItems_head w vs
    rw [hhead, List.cons_append] at hmore ⊢
    rw [readItems, h.value v _ (by omega) (stops_cons (by simp))]
    simp only [skipSpace_cons (show isSpace ',' = false by decide), skipSpace_cons hspace, hmore,
      Option.map_some]

theorem ReadsBack.fields_succ (h : ReadsBack fuel) (f : Option String × Json)
    (fs : List (Option String × Json)) (hfuel : (writeFields (f :: fs)).length + 1 < fuel + 1) :
    readFields (fuel + 1) (writeFields (f :: fs) ++ '\x7d' :: rest) = some (f :: fs, rest) := by
  obtain ⟨k, v⟩ := f
  have hcolon : ∀ cs, skipSpace (':' :: cs) = ':' :: cs := fun _ => skipSpace_cons (by decide)
  cases fs with
  | nil =>
    obtain ⟨cs, hk, hread⟩ := readString_quote k (':' :: (v.write ++ '\x7d' :: rest))
    simp only [writeFields, hk, List.append_assoc, List.length_append, List.length_cons,
      List.cons_append] at hfuel ⊢
    rw [readFields, hread]
    simp only [hcolon, skipSpace_write]
    rw [h.value v _ (by omega) (stops_cons (by simp))]
    rfl
  | cons g fs =>
    obtain ⟨cs, hk, hread⟩ :=
      readString_quote k (':' :: (v.write ++ ',' :: (writeFields (g :: fs) ++ '\x7d' :: rest)))
    simp only [writeFields, hk, List.append_assoc, List.length_append, List.length_cons,
      List.cons_append] at hfuel ⊢
    have hmore := h.fields g fs rest (by omega)
    obtain ⟨ds, hhead⟩ := writeFields_head g fs
    rw [hhead, List.cons_append] at hmore hread ⊢
    rw [readFields, hread]
    simp only [hcolon, skipSpace_write]
    rw [h.value v _ (by omega) (stops_cons (by simp))]
    simp only [skipSpace_cons (show isSpace ',' = false by decide),
      skipSpace_cons (show isSpace '\x22' = false by decide), hmore, Option.map_some]

theorem readsBack (fuel : Nat) : ReadsBack fuel := by
  induction fuel with
  | zero => exact ⟨fun _ _ h => by omega, fun _ _ _ h => by omega, fun _ _ _ h => by omega⟩
  | succ fuel ih =>
    exact ⟨fun j _ => ih.value_succ j, fun v vs _ => ih.items_succ v vs,
      fun f fs _ => ih.fields_succ f fs⟩

/-- The compact text of a value spells that value and no other. -/
theorem parse?_compact (j : Json) : parse? j.compact = some j := by
  have hread : readValue (j.write.length + 1) (j.write ++ []) = some (j, []) :=
    (readsBack _).value j [] (Nat.lt_succ_self _) (fun _ h => nomatch h)
  have hskip : skipSpace (j.write ++ []) = j.write ++ [] := skipSpace_write j
  rw [List.append_nil] at hread hskip
  rw [parse?, compact, String.toList_ofList, String.length_ofList, hskip, hread]
  rfl

end Values
end SourceOutline.Json
