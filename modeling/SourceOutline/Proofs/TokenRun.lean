import SourceOutline.TokenSource

/-! Whole runs of a reader of tokens.
A run takes tokens one by one through the first end mark and meets no failure on the way. -/
namespace SourceOutline

/-- From `s` the reader gives exactly `ts`, whose last token is its only end mark, and ends in the
last state. -/
inductive Yields {σ ε : Type} (next : σ → Reported (Except ε Token × σ)) : σ → List Token → σ → Prop
  | last {s u : σ} {t : Token} (h : (next s).value = (.ok t, u)) (ht : t.isEof = true) :
      Yields next s [t] u
  | more {s u v : σ} {t : Token} {ts : List Token} (h : (next s).value = (.ok t, u))
      (ht : t.isEof = false) (hs : Yields next u ts v) : Yields next s (t :: ts) v

namespace Yields
variable {σ ε : Type} {next : σ → Reported (Except ε Token × σ)} {s u : σ} {t : Token}
  {ts : List Token}

theorem split (h : Yields next s ts u) :
    ∃ us t, ts = us ++ [t] ∧ t.isEof = true ∧ ∀ r ∈ us, r.isEof = false := by
  induction h with
  | @last _ _ t _ ht => exact ⟨[], t, rfl, ht, by simp⟩
  | @more _ _ _ t ts _ ht _ ih =>
    obtain ⟨us, e, rfl, he, hus⟩ := ih
    refine ⟨t :: us, e, rfl, he, ?_⟩
    intro r hr
    rcases List.mem_cons.1 hr with rfl | hr
    · exact ht
    · exact hus r hr

theorem eq_nil_of_isEof (h : Yields next s (t :: ts) u) (ht : t.isEof = true) : ts = [] := by
  cases h with
  | last => rfl
  | more _ hf => rw [ht] at hf; cases hf

theorem head (h : Yields next s (t :: ts) u) (ht : t.isEof = false) :
    ∃ v, (next s).value = (.ok t, v) ∧ Yields next v ts u := by
  cases h with
  | last _ he => rw [ht] at he; cases he
  | more hn _ hs => exact ⟨_, hn, hs⟩

theorem next_eq (h : Yields next s (t :: ts) u) : ∃ v, (next s).value = (.ok t, v) := by
  cases h with
  | last hn => exact ⟨_, hn⟩
  | more hn => exact ⟨_, hn⟩

theorem ne_nil (h : Yields next s ts u) : ts ≠ [] := by
  cases h <;> simp

theorem isEof_of_mem_dropLast (h : Yields next s ts u) (ht : t ∈ ts.dropLast) :
    t.isEof = false := by
  obtain ⟨us, e, rfl, _, hus⟩ := h.split
  rw [List.dropLast_concat] at ht
  exact hus t ht

end Yields

/-- From `s` the reader gives `ts`, none of which is an end mark, and comes to the last state. -/
inductive Takes {σ ε : Type} (next : σ → Reported (Except ε Token × σ)) : σ → List Token → σ → Prop
  | nil {s : σ} : Takes next s [] s
  | cons {s u v : σ} {t : Token} {ts : List Token} (h : (next s).value = (.ok t, u))
      (ht : t.isEof = false) (hs : Takes next u ts v) : Takes next s (t :: ts) v

/-- Tokens taken stand in front of the run that follows. -/
theorem Takes.yields {σ ε : Type} {next : σ → Reported (Except ε Token × σ)} {s u v : σ}
    {ts us : List Token} (h : Takes next s ts u) (hy : Yields next u us v) :
    Yields next s (ts ++ us) v := by
  induction h with
  | nil => exact hy
  | cons hn ht _ ih => exact .more hn ht (ih hy)

theorem Yields.exists_takes {σ ε : Type} {next : σ → Reported (Except ε Token × σ)} {s v : σ}
    {t : Token} {ts us : List Token} (h : Yields next s (ts ++ t :: us) v) :
    ∃ u, Takes next s ts u ∧ Yields next u (t :: us) v := by
  induction ts generalizing s with
  | nil => exact ⟨s, .nil, h⟩
  | cons r ts ih =>
    have hr : r.isEof = false := by
      refine eq_false_of_ne_true fun he => ?_
      have hnil := h.eq_nil_of_isEof he
      simp at hnil
    obtain ⟨w, hn, hw⟩ := h.head hr
    obtain ⟨u, hts, hu⟩ := ih hw
    exact ⟨u, .cons hn hr hts, hu⟩

theorem Takes.remaining_le {s u : TokenSource} {ts : List Token}
    (h : Takes TokenSource.next s ts u) : u.remaining ≤ s.remaining := by
  induction h with
  | nil => exact Nat.le_refl _
  | cons hn ht _ ih => exact Nat.le_trans ih (Nat.le_of_lt (TokenSource.remaining_next_lt hn ht))

def Token.lead (vs : List Trivia) : List Token → List Token
  | [] => []
  | t :: ts => { t with trivia := vs ++ t.trivia } :: ts

namespace Token
variable (vs ws : List Trivia) (ts us : List Token)

@[simp] theorem lead_cons (t : Token) :
    lead vs (t :: ts) = { t with trivia := vs ++ t.trivia } :: ts := rfl

@[simp] theorem lead_nil : lead [] ts = ts := by
  cases ts <;> rfl

theorem lead_ne_nil {vs : List Trivia} {ts : List Token} (h : ts ≠ []) : lead vs ts ≠ [] := by
  cases ts with
  | nil => exact absurd rfl h
  | cons t ts => simp

theorem lead_lead : lead vs (lead ws ts) = lead (vs ++ ws) ts := by
  cases ts with
  | nil => rfl
  | cons t ts => simp

theorem lead_append : lead vs (ts ++ us) = lead vs ts ++ lead (if ts = [] then vs else []) us := by
  cases ts with
  | nil => rfl
  | cons t ts => simp

end Token

namespace Lexer

theorem tokensFrom_of_yields {l m : Lexer} {ts : List Token} (h : Yields next l ts m)
    (found : List Token) (log : List Event) :
    (l.tokensFrom found log).value = (.ok (found.reverse ++ ts.dropLast), m) := by
  induction h generalizing found log with
  | @last s u t hn ht =>
    unfold tokensFrom
    dsimp only
    split
    · next h => rw [hn] at h; cases h
    · next h => rw [hn] at h; cases h; simp [ht]
  | @more s u v t ts hn ht hs ih =>
    unfold tokensFrom
    dsimp only
    split
    · next h => rw [hn] at h; cases h
    · next h =>
      rw [hn] at h
      cases h
      rw [dif_neg (by simp [ht]), ih, List.dropLast_cons_of_ne_nil hs.ne_nil]
      simp

theorem yields_of_tokensFrom {l m : Lexer} {found us : List Token} {log : List Event}
    (h : (l.tokensFrom found log).value = (.ok us, m)) :
    ∃ ts, Yields next l ts m ∧ us = found.reverse ++ ts.dropLast := by
  fun_induction tokensFrom l found log with
  | case1 => cases h
  | case2 l found log r t u hn ht =>
    cases h
    exact ⟨[t], .last hn ht, by simp⟩
  | case3 l found log r t u hn ht _ ih =>
    obtain ⟨ts, hts, rfl⟩ := ih h
    refine ⟨t :: ts, .more hn (eq_false_of_ne_true ht) hts, ?_⟩
    rw [List.dropLast_cons_of_ne_nil hts.ne_nil]
    simp

/-- A text has the tokens of its run, less the end mark. -/
theorem tokenize_eq_ok_iff {text : String} {us : List Token} :
    (tokenize text).value = .ok us ↔
      ∃ ts m, Yields next (ofString .full text) ts m ∧ us = ts.dropLast := by
  constructor
  · intro h
    unfold tokenize at h
    dsimp only at h
    split at h
    · cases h
    · next tokens l hr =>
      cases h
      obtain ⟨ts, hts, rfl⟩ := yields_of_tokensFrom hr
      exact ⟨ts, l, hts, rfl⟩
  · rintro ⟨ts, m, hts, rfl⟩
    have hr := tokensFrom_of_yields hts [] []
    unfold tokenize
    dsimp only
    rw [hr]
    rfl

theorem yields_of_map {α : Type} {text : String} {f : Token → α} {xs : List α}
    (h : (tokenize text).value.toOption.map (List.map f) = some xs) :
    ∃ ts e m, Yields next (ofString .full text) (ts ++ [e]) m ∧ ts.map f = xs := by
  cases hv : (tokenize text).value with
  | error e =>
    rw [hv] at h
    cases h
  | ok us =>
    rw [hv] at h
    obtain ⟨ts, m, hy, rfl⟩ := tokenize_eq_ok_iff.1 hv
    obtain ⟨us, e, rfl, _, _⟩ := hy.split
    rw [List.dropLast_concat] at h
    exact ⟨us, e, m, hy, Option.some.inj h⟩

theorem yields_of_images {text : String} {images : List String}
    (h : (tokenize text).value.toOption.map (List.map Token.image) = some images) :
    ∃ ts e m, Yields next (ofString .full text) (ts ++ [e]) m ∧ ts.map Token.image = images :=
  yields_of_map h

theorem isEof_of_mem_tokenize {text : String} {us : List Token} {t : Token}
    (h : (tokenize text).value = .ok us) (ht : t ∈ us) : t.isEof = false := by
  obtain ⟨ts, m, hts, rfl⟩ := tokenize_eq_ok_iff.1 h
  exact hts.isEof_of_mem_dropLast ht

end Lexer
end SourceOutline
