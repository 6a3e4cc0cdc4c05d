import SourceOutline.Proofs.Rewriting

/-! What an engine counts while it filters an input.
Each part of the source adds to the counts on its own, so the counts of a whole run are read off the
parts. Tokens are neither lost nor made up on the way. -/
namespace SourceOutline
namespace Rewriting

namespace Part

def uses (kind : FilterKind) : Part → Bool
  | replaced f _ _ => f.kind = kind
  | _ => false

/-- Whether the name of a call filter stands there without being called. -/
def declines : Part → Bool
  | passed _ _ => true
  | _ => false

def template : Part → List Token
  | replaced f _ _ => f.template
  | _ => []

theorem count_eq (m : EngineMetrics) (p : Part) :
    p.count m =
      ⟨m.emitted + p.written.length, m.defines + if p.uses .define then 1 else 0,
        m.calls + if p.uses .call then 1 else 0, m.declined + if p.declines then 1 else 0⟩ := by
  cases p with
  | kept t => rfl
  | passed t u => rfl
  | replaced f t dropped =>
    cases hk : f.kind <;>
      simp [count, hk, EngineMetrics.countUse, written, copies, uses, declines]

/-- A trigger and its arguments go, and a template comes. -/
theorem length_written (p : Part) :
    p.written.length + (if p.uses .define then 1 else 0) + (if p.uses .call then 1 else 0) +
        p.dropped.length =
      p.source.length + p.template.length := by
  cases p with
  | kept t => rfl
  | passed t u => rfl
  | replaced f t dropped =>
    have hused : (if f.kind = .define then 1 else 0) + (if f.kind = .call then 1 else 0) = 1 := by
      cases f.kind <;> rfl
    simp only [written, copies, List.length_map, uses, decide_eq_true_eq, source, spared,
      Part.dropped, template, List.length_append, List.length_singleton]
    omega

end Part

theorem foldl_count (ps : List Part) (m : EngineMetrics) :
    ps.foldl Part.count m =
      ⟨m.emitted + (ps.flatMap Part.written).length, m.defines + ps.countP (Part.uses .define),
        m.calls + ps.countP (Part.uses .call), m.declined + ps.countP Part.declines⟩ := by
  induction ps generalizing m with
  | nil => rfl
  | cons p ps ih =>
    rw [List.foldl_cons, ih, Part.count_eq]
    simp only [List.flatMap_cons, List.length_append, List.countP_cons, EngineMetrics.mk.injEq]
    omega

theorem length_flatMap_written (ps : List Part) :
    (ps.flatMap Part.written).length + ps.countP (Part.uses .define) +
        ps.countP (Part.uses .call) + (ps.flatMap Part.dropped).length =
      (ps.flatMap Part.source).length + (ps.flatMap Part.template).length := by
  induction ps with
  | nil => rfl
  | cons p ps ih =>
    have hp := p.length_written
    simp only [List.flatMap_cons, List.length_append, List.countP_cons]
    omega

theorem length_given (ps : List Part) : (given ps).length = (ps.flatMap Part.written).length := by
  simpa using congrArg List.length (map_face_given ps)

end Rewriting

namespace Engine
open Rewriting

/-- The source of an input that is filtered to its end is cut into parts. The engine has counted the
triggers replaced and the names of call filters that were not called. What it gave out is the source
without triggers and dropped arguments, and with the templates. -/
theorem metrics_balance {e : Engine} (he : e.Reached) (input : String) {us : List Token}
    (h : (e.tokenizeAll input).result = .ok us) :
    let m := (e.tokenizeAll input).engine.metrics
    ∃ ts s ps, Yields TokenSource.next (e.buffer.source.reset input) ts s ∧
      Cut e.filters ts ps ∧ ps.flatMap Part.source = ts ∧
      m.defines = ps.countP (Part.uses .define) ∧ m.calls = ps.countP (Part.uses .call) ∧
      m.declined = ps.countP Part.declines ∧
      m.emitted + m.defines + m.calls + (ps.flatMap Part.dropped).length =
        ts.length + (ps.flatMap Part.template).length ∧
      m.emitted = us.length := by
  intro m
  obtain ⟨ts, s, ps, hy, hcut, rfl⟩ := cut_of_tokenizeAll he h
  have hm : m = _ := (tokenizeAll_of_cut he.wellFormed input hy hcut).2
  rw [foldl_count] at hm
  have hbalance := length_flatMap_written ps
  rw [hcut.flatMap_source] at hbalance
  refine ⟨ts, s, ps, hy, hcut, hcut.flatMap_source, ?_⟩
  rw [hm, length_given]
  simpa [EngineMetrics.zero] using hbalance

/-- One name of a call filter hides another one behind it, and the last stands in front of the end
mark. -/
theorem metrics_balance_declined :
    let t (kind : TokenKind) (image : String) := Token.plain kind image (.point .start)
    let ts := [t .identifier "D", t .identifier "M", t .leftParen "(", t .leftParen "(",
      t .rightParen ")", t .identifier "D", t .rightParen ")", t .identifier "N",
      t .leftParen "(", t .rightParen ")", t .identifier "M", t .identifier "N",
      t .identifier "x", t .identifier "M", t .eof ""]
    let e := ((((ofSource (.script (.ofItems (ts.map .ok))) ⟨false, false⟩).register
      .define "D" "M (").value.2.register .call "M" "a b c").value.2.register .call "N" "").value.2
    let m := (e.tokenizeAll "").engine.metrics
    ∃ us, (e.tokenizeAll "").result = .ok us ∧
      us.map Token.image = ["M", "(", "a", "b", "c", "M", "N", "x", "M", ""] ∧ m = ⟨10, 1, 2, 2⟩ ∧
      ∃ ts s ps, Yields TokenSource.next (e.buffer.source.reset "") ts s ∧
        Cut e.filters ts ps ∧ ps.flatMap Part.source = ts ∧
        m.defines = ps.countP (Part.uses .define) ∧ m.calls = ps.countP (Part.uses .call) ∧
        m.declined = ps.countP Part.declines ∧
        m.emitted + m.defines + m.calls + (ps.flatMap Part.dropped).length =
          ts.length + (ps.flatMap Part.template).length ∧
        m.emitted = us.length := by
  intro t ts e m
  have he : e.Reached := .register (.register (.register (.start _ _) _ _ _) _ _ _) _ _ _
  obtain ⟨s, hy⟩ : ∃ s, Yields TokenSource.next (e.buffer.source.reset "") ts s := by
    rw [buffer_register, buffer_register, buffer_register]
    exact ⟨_, .more rfl rfl (.more rfl rfl (.more rfl rfl (.more rfl rfl (.more rfl rfl
      (.more rfl rfl (.more rfl rfl (.more rfl rfl (.more rfl rfl (.more rfl rfl (.more rfl rfl
      (.more rfl rfl (.more rfl rfl (.more rfl rfl (.last rfl rfl))))))))))))))⟩
  have hparts : (parts e.filters ts).toOption.map
      (fun ps => ((given ps).map Token.image, ps.foldl Part.count .zero)) =
        some (["M", "(", "a", "b", "c", "M", "N", "x", "M", ""], ⟨10, 1, 2, 2⟩) := by
    decide +kernel
  obtain ⟨ps, hps⟩ : ∃ ps, parts e.filters ts = .ok ps := by
    cases hps : parts e.filters ts with
    | error error => rw [hps] at hparts; cases hparts
    | ok ps => exact ⟨ps, rfl⟩
  rw [hps] at hparts
  obtain ⟨himages, hcounts⟩ := Prod.mk.inj (Option.some.inj hparts)
  obtain ⟨hresult, hm⟩ := tokenizeAll_of_cut he.wellFormed "" hy (cut_of_parts hy hps)
  exact ⟨given ps, hresult, himages, hm.trans hcounts, metrics_balance he "" hresult⟩

end Engine
end SourceOutline
