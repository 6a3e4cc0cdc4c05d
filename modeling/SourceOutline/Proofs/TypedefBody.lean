import Mathlib.Data.List.Chain
import SourceOutline.Proofs.TypedefLoop

/-! Definitions inside a typedef.
Of the tokens in its braces a typedef sees classes, forward declarations and blocks. Those have the
outline that they have everywhere, but an enumeration, an alias or a namespace in there is none. -/
namespace SourceOutline

namespace Declarations

def append : Declarations → Declarations → Declarations
  | nil, es => es
  | namespaceDef line names body rest, es => namespaceDef line names body (rest.append es)
  | classDef kind line name body rest, es => classDef kind line name body (rest.append es)
  | forward name rest, es => forward name (rest.append es)
  | enumDef line name rest, es => enumDef line name (rest.append es)
  | typeAlias line name rest, es => typeAlias line name (rest.append es)

theorem listing_append (ds es : Declarations) (path : List String) (l : Listing) :
    (ds.append es).listing path l = es.listing path (ds.listing path l) := by
  induction ds generalizing l with
  | nil => rfl
  | namespaceDef _ _ _ _ _ ih => exact ih _
  | classDef _ _ _ _ _ _ ih => exact ih _
  | forward _ _ ih => exact ih _
  | enumDef _ _ _ ih => exact ih _
  | typeAlias _ _ _ ih => exact ih _

theorem nesting_append (ds es : Declarations) :
    (ds.append es).nesting = max ds.nesting es.nesting := by
  induction ds with
  | nil => simp [append, nesting]
  | namespaceDef _ _ _ _ _ ih => simp only [append, nesting, ih]; omega
  | classDef _ _ _ _ _ _ ih => simp only [append, nesting, ih]; omega
  | forward _ _ ih => simp only [append, nesting, ih]; omega
  | enumDef _ _ _ ih => exact ih
  | typeAlias _ _ _ ih => exact ih

theorem append_eq_nil {ds es : Declarations} (h : ds.append es = nil) : ds = nil ∧ es = nil := by
  cases ds with
  | nil => exact ⟨rfl, h⟩
  | _ => cases h

def classes : Declarations → Declarations
  | nil => nil
  | namespaceDef _ _ body rest => body.classes.append rest.classes
  | classDef kind line name body rest => classDef kind line name body.classes rest.classes
  | forward name rest => forward name rest.classes
  | enumDef _ _ rest | typeAlias _ _ rest => rest.classes

theorem nesting_classes_le (ds : Declarations) : ds.classes.nesting ≤ ds.nesting := by
  induction ds with
  | nil => exact Nat.le_refl _
  | namespaceDef _ _ _ _ ihbody ihrest => simp only [classes, nesting_append, nesting]; omega
  | classDef _ _ _ _ _ ihbody ihrest => simp only [classes, nesting]; omega
  | forward _ _ ih => simp only [classes, nesting]; omega
  | enumDef _ _ _ ih => exact ih
  | typeAlias _ _ _ ih => exact ih

def ClassesOnly : Declarations → Prop
  | nil => True
  | classDef _ _ _ body rest => body.ClassesOnly ∧ rest.ClassesOnly
  | forward _ rest => rest.ClassesOnly
  | namespaceDef .. | enumDef .. | typeAlias .. => False

theorem ClassesOnly.classes_eq {ds : Declarations} (h : ds.ClassesOnly) : ds.classes = ds := by
  induction ds with
  | nil => rfl
  | classDef _ _ _ _ _ ihbody ihrest => rw [classes, ihbody h.1, ihrest h.2]
  | forward _ _ ih => rw [classes, ih h]
  | namespaceDef | enumDef | typeAlias => exact h.elim

end Declarations

/-- Class keys stand only where a declaration begins, not in the target of an alias and not in the
head of an enumeration. -/
def KeysLead (tokens : List Token) : Prop :=
  tokens.IsChain fun before key =>
    (EntryKind.ofClassKey? key).isSome → before.image ∈ ["\x7b", "\x7d", ";"]

instance (tokens : List Token) : Decidable (KeysLead tokens) :=
  inferInstanceAs (Decidable (tokens.IsChain _))

theorem KeysLead.of_infix {tokens inner : List Token} (h : KeysLead tokens) (hi : inner <:+: tokens) :
    KeysLead inner :=
  List.IsChain.infix h hi

theorem KeysLead.ofClassKey?_eq_none {tokens : List Token} {t : Token} (h : KeysLead (t :: tokens))
    (hmarks : ∀ u ∈ t :: tokens, u.image ∉ ["\x7b", "\x7d", ";"]) :
    ∀ u ∈ tokens, EntryKind.ofClassKey? u = none := by
  induction tokens generalizing t with
  | nil => simp
  | cons first tokens ih =>
    obtain ⟨hpair, hrest⟩ := List.isChain_cons_cons.1 h
    obtain ⟨ht, hmarks⟩ := List.forall_mem_cons.1 hmarks
    have hfirst : EntryKind.ofClassKey? first = none := by
      simpa using mt hpair ht
    exact List.forall_mem_cons.2 ⟨hfirst, ih hrest hmarks⟩

def Builder.Ready (before : Option Token) (tokens : List Token) : Prop :=
  ∀ t ∈ tokens.head?, (EntryKind.ofClassKey? t).isSome → Clear before

theorem Builder.ready_of_none {t : Token} (h : EntryKind.ofClassKey? t = none)
    (before : Option Token) (tokens : List Token) : Ready before (t :: tokens) := by
  rintro u ⟨⟩ hkey
  rw [h] at hkey
  cases hkey

theorem Builder.ready_of_reads {t : Token} {image : String} (h : t.Reads .punctuator image)
    (hi : image ∈ ["\x7b", "\x7d", ";"]) (tokens : List Token) : Ready (some t) tokens :=
  fun _ _ _ => clear_of_reads h hi

namespace Declarations

/-- The declarations that a typedef sees in the tokens of its braces. No semicolon has to follow a
class, and what else is declared there goes by as other tokens and blocks. -/
inductive Seen : Declarations → List Token → Prop
  | nil : Seen .nil []
  | other {rest : Declarations} {t : Token} {after : List Token} (ht : t.Idle)
      (hready : Builder.Ready (some t) after) (hrest : Seen rest after) : Seen rest (t :: after)
  | block {body rest : Declarations} {opened closed : Token} {inner after : List Token}
      (hopened : opened.Reads .punctuator "\x7b") (hbody : Seen body inner)
      (hclosed : closed.Reads .punctuator "\x7d") (hrest : Seen rest after) :
      Seen (body.append rest) (opened :: (inner ++ closed :: after))
  | classDef {kind : EntryKind} {name : String} {body rest : Declarations}
      {key t opened closed : Token} {inner after : List Token}
      (hkind : kind ∈ EntryKind.classKinds) (hkey : key.Reads .keyword kind.keyword)
      (hname : t.Names name) (hopened : opened.Reads .punctuator "\x7b") (hbody : Seen body inner)
      (hclosed : closed.Reads .punctuator "\x7d") (hrest : Seen rest after) :
      Seen (.classDef kind key.beginLine name body rest)
        (key :: t :: opened :: (inner ++ closed :: after))
  | forward {kind : EntryKind} {name : String} {rest : Declarations} {key t stop : Token}
      {after : List Token} (hkind : kind ∈ EntryKind.classKinds)
      (hkey : key.Reads .keyword kind.keyword) (hname : t.Names name)
      (hstop : stop.Reads .punctuator ";") (hrest : Seen rest after) :
      Seen (.forward name rest) (key :: t :: stop :: after)

theorem Seen.others {ds : Declarations} {tokens after : List Token} (htokens : ∀ t ∈ tokens, t.Idle)
    (hready : ∀ t ∈ tokens.getLast?, Builder.Ready (some t) after) (h : ds.Seen after) :
    ds.Seen (tokens ++ after) := by
  induction tokens with
  | nil => exact h
  | cons t tokens ih =>
    have hmore : ∀ u ∈ tokens, u.Idle := fun u hu => htokens u (List.mem_cons_of_mem t hu)
    refine .other (htokens t List.mem_cons_self) ?_ (ih hmore fun u hu => hready u ?_)
    · cases tokens with
      | nil => exact hready t rfl
      | cons u tokens => exact Builder.ready_of_none (hmore u List.mem_cons_self).key _ _
    · rw [List.getLast?_cons, Option.mem_def.1 hu]
      rfl

end Declarations

theorem Enumerators.seen {tokens : List Token} (h : Enumerators tokens) :
    Declarations.Seen .nil tokens := by
  simpa using Declarations.Seen.others h.idle (fun _ _ _ hu => absurd hu (by simp)) .nil

namespace Declarations

/-- Of declarations a typedef sees the classes. -/
theorem Spells.seen {ds : Declarations} {tokens : List Token} (h : ds.Spells tokens)
    (hkeys : ds.ClassesOnly ∨ KeysLead tokens) : ds.classes.Seen tokens := by
  induction h with
  | nil => exact .nil
  | @namespaceDef names body rest key opened closed name inner after hkey hname hopened hbody hclosed
      hrest ihbody ihrest =>
    replace hkeys := hkeys.resolve_left id
    have hinner : inner <:+: key :: (name ++ opened :: (inner ++ closed :: after)) :=
      ⟨key :: (name ++ [opened]), closed :: after, by simp⟩
    have hafter : after <:+: key :: (name ++ opened :: (inner ++ closed :: after)) :=
      ⟨key :: (name ++ opened :: (inner ++ [closed])), [], by simp⟩
    have hblock := Seen.block hopened (ihbody (.inr (hkeys.of_infix hinner))) hclosed
      (ihrest (.inr (hkeys.of_infix hafter)))
    have hidle : ∀ t ∈ key :: name, t.Idle := by
      refine List.forall_mem_cons.2 ⟨hkey.idle (by decide), ?_⟩
      rcases hname with ⟨-, rfl⟩ | hname
      · simp
      · exact hname.idle
    exact Seen.others hidle
      (fun _ _ => Builder.ready_of_none (hopened.ofClassKey?_eq_none (by decide)) _ _) hblock
  | @classDef kind name body rest key t opened closed stop inner after hkind hkey hname hopened hbody
      hclosed hstop hrest ihbody ihrest =>
    have hinner : inner <:+: key :: t :: opened :: (inner ++ closed :: stop :: after) :=
      ⟨[key, t, opened], closed :: stop :: after, by simp⟩
    have hafter : after <:+: key :: t :: opened :: (inner ++ closed :: stop :: after) :=
      ⟨key :: t :: opened :: (inner ++ [closed, stop]), [], by simp⟩
    refine .classDef hkind hkey hname hopened (ihbody ?_) hclosed ?_
    · exact hkeys.imp And.left fun h => h.of_infix hinner
    · exact .other (hstop.idle (by decide)) (Builder.ready_of_reads hstop (by simp) _)
        (ihrest (hkeys.imp And.right fun h => h.of_infix hafter))
  | @forward kind name rest key t stop after hkind hkey hname hstop hrest ih =>
    have hafter : after <:+: key :: t :: stop :: after := ⟨[key, t, stop], [], by simp⟩
    exact .forward hkind hkey hname hstop (ih (hkeys.imp id fun h => h.of_infix hafter))
  | @enumDef name rest key t opened closed stop words inner after hkey hwords hname hopened hinner
      hclosed hstop hrest ih =>
    replace hkeys := hkeys.resolve_left id
    -- a scoped enumeration is taken for a class
    obtain rfl : words = [] := by
      refine hwords.resolve_right ?_
      rintro ⟨word, hword, rfl⟩
      have hpair := (List.isChain_cons_cons.1 hkeys).1
        (by simp [EntryKind.ofClassKey?, hword.is, hword.2])
      rw [hkey.2] at hpair
      exact absurd hpair (by decide)
    have hafter : after <:+: key :: ([] ++ t :: opened :: (inner ++ closed :: stop :: after)) :=
      ⟨key :: t :: opened :: (inner ++ [closed, stop]), [], by simp⟩
    have hend := Seen.other (hstop.idle (by decide)) (Builder.ready_of_reads hstop (by simp) _)
      (ih (.inr (hkeys.of_infix hafter)))
    exact .other (hkey.idle (by decide)) (Builder.ready_of_none hname.idle.key _ _)
      (.other hname.idle (Builder.ready_of_none (hopened.ofClassKey?_eq_none (by decide)) _ _)
        (.block hopened hinner.seen hclosed hend))
  | @typeAlias name rest key t equal stop target after hkey hname hequal htarget hstop hrest ih =>
    replace hkeys := hkeys.resolve_left id
    have htargets : equal :: target <:+: key :: t :: equal :: (target ++ stop :: after) :=
      ⟨[key, t], stop :: after, by simp⟩
    have hafter : after <:+: key :: t :: equal :: (target ++ stop :: after) :=
      ⟨key :: t :: equal :: (target ++ [stop]), [], by simp⟩
    have hnone := (hkeys.of_infix htargets).ofClassKey?_eq_none
      (List.forall_mem_cons.2 ⟨by rw [hequal.2]; decide, htarget.marks⟩)
    have hidle : ∀ u ∈ key :: t :: equal :: target, u.Idle := by
      simp only [List.forall_mem_cons]
      refine ⟨hkey.idle (by decide), hname.idle, hequal.idle (by decide), fun u hu => ?_⟩
      have hmarks := htarget.marks u hu
      simp only [List.mem_cons, List.not_mem_nil, or_false, not_or] at hmarks
      exact ⟨Bool.eq_false_iff.2 (htarget.eof u hu), hnone u hu, hmarks.1, hmarks.2.1⟩
    have hend := Seen.other (hstop.idle (by decide)) (Builder.ready_of_reads hstop (by simp) _)
      (ih (.inr (hkeys.of_infix hafter)))
    exact Seen.others hidle
      (fun _ _ => Builder.ready_of_none (hstop.ofClassKey?_eq_none (by decide)) _ _) hend

end Declarations

namespace Builder
open ScopeTree QualifiedName
variable {b b' inner : Builder} {depth : Nat} {l : Listing} {path : List String}
  {tokens : List Token}

def Carries (depth : Nat) (b : Builder) (tokens : List Token) (b' : Builder) : Prop :=
  ∀ d before rest, Ready before tokens → ∃ last,
    b.declarators depth d ⟨before, tokens ++ rest⟩ = b'.declarators depth d ⟨last, rest⟩

theorem Ready.clear {kind : EntryKind} {key : Token} {before : Option Token}
    (h : Ready before (key :: tokens)) (hkind : kind ∈ EntryKind.classKinds)
    (hkey : key.Reads .keyword kind.keyword) : Clear before :=
  h key rfl (by simp [EntryKind.ofClassKey?_of_reads hkind hkey])

theorem declarators_class {kind : EntryKind} {key t next : Token} {name image : String}
    {d : Declarators} (hkind : kind ∈ EntryKind.classKinds)
    (hkey : key.Reads .keyword kind.keyword) (hname : t.Names name)
    (hnext : next.Reads .punctuator image) (hi : image = "\x7b" ∨ image = ";")
    (h : (if image = ";" then b.forward b.current name
      else b.enterClass kind key.beginLine b.current name) = .ok b')
    {before : Option Token} (hb : Clear before) (rest : List Token) :
    b.declarators depth d ⟨before, key :: t :: next :: rest⟩ =
      b'.declarators depth d ⟨some next, rest⟩ := by
  rw [declarators_classKey (EntryKind.ofClassKey?_of_reads hkind hkey),
    classBody_of_names hname hb hnext hi, h]
  rfl

/-- The closing brace of a plain block changes nothing else. -/
theorem Agrees.closeBlock (h : inner.Agrees l path) (hkept : Kept path.length b.openBrace inner)
    (closed : Token) :
    (inner.closeBrace closed).Agrees l path ∧ Kept path.length b (inner.closeBrace closed) := by
  have hclose : inner.closeBrace closed = { inner with frames := b.frames } := by
    rw [Builder.closeBrace, hkept.frames]
    rfl
  rw [hclose]
  exact ⟨⟨h.tree, h.here, h.entries⟩, hkept.current, rfl, hkept.keeps⟩

theorem Carries.other {t : Token} (ht : t.Idle) (hready : Ready (some t) tokens)
    (hinside : depth < b.frames.count) (h : Carries depth b tokens b') :
    Carries depth b (t :: tokens) b' := by
  intro d before rest _
  have hne := Nat.ne_of_gt hinside
  rw [List.cons_append, declarators_idle ht fun htop => absurd htop hne, if_neg hne]
  exact h d _ rest hready

theorem Carries.block {last : Builder} {opened closed : Token} {after : List Token}
    (hopened : opened.Reads .punctuator "\x7b") (hbody : Carries depth b.openBrace tokens last)
    (hclosed : closed.Reads .punctuator "\x7d") (h : Carries depth (last.closeBrace closed) after b') :
    Carries depth b (opened :: (tokens ++ closed :: after)) b' := by
  intro d before rest _
  obtain ⟨mid, hmid⟩ := hbody d (some opened) (closed :: (after ++ rest))
    (ready_of_reads hopened (by simp) _)
  simp only [List.cons_append, List.append_assoc]
  rw [declarators_brace hopened (.inl rfl), passToken_opened hopened, hmid,
    declarators_brace hclosed (.inr rfl), passToken_closed hclosed]
  exact h d _ rest (ready_of_reads hclosed (by simp) _)

theorem Agrees.classBlock {kind : EntryKind} {name : String} {key t opened closed : Token}
    {l' : Listing} (h : b.Agrees l path) (hkind : kind ∈ EntryKind.classKinds)
    (hkey : key.Reads .keyword kind.keyword) (hname : t.Names name)
    (hopened : opened.Reads .punctuator "\x7b") (hclosed : closed.Reads .punctuator "\x7d")
    (hlimit : path.length < ScopeError.depthLimit) (hdepth : depth ≤ b.frames.count)
    (hbody : ∀ block : Builder, block.Agrees
        ((l.enter path name).record kind key.beginLine path name) (path ++ [name]) →
      depth < block.frames.count → ∃ last, Carries depth block tokens last ∧
        last.Agrees l' (path ++ [name]) ∧ Kept (path ++ [name]).length block last) :
    ∃ b', (∀ d before rest, Clear before →
        b.declarators depth d ⟨before, key :: t :: opened :: (tokens ++ closed :: rest)⟩ =
          b'.declarators depth d ⟨some closed, rest⟩) ∧
      b'.Agrees l' path ∧ Kept path.length b b' := by
  obtain ⟨block, hentered, hin, hframes, hkeeps⟩ :=
    h.enterClass (hname.not_mem ':' (by decide)) hlimit kind key.beginLine
  have hdeeper : depth < block.frames.count := by
    rw [hframes]
    exact Nat.lt_succ_of_le hdepth
  obtain ⟨last, hlast, hagrees, hkept⟩ := hbody block hin hdeeper
  refine ⟨_, fun d before rest hb => ?_, hagrees.closeBrace h (hkept.frames.trans hframes) ?_ closed⟩
  · obtain ⟨mid, hmid⟩ := hlast d (some opened) (closed :: rest) (ready_of_reads hopened (by simp) _)
    rw [declarators_class hkind hkey hname hopened (.inl rfl) ((if_neg (by decide)).trans hentered) hb,
      hmid, declarators_brace hclosed (.inr rfl), passToken_closed hclosed]
  · exact fun q hq => (hkept.keeps q (by simp; omega)).trans (hkeeps q hq)

/-- What a typedef sees leads from a builder that agrees with a listing to one that agrees with the
listing after it. -/
theorem Agrees.seen {ds : Declarations} (hs : ds.Seen tokens) (h : b.Agrees l path)
    (hdepth : path.length + ds.nesting ≤ ScopeError.depthLimit) (hinside : depth < b.frames.count) :
    ∃ b', Carries depth b tokens b' ∧ b'.Agrees (ds.listing path l) path ∧
      Kept path.length b b' := by
  induction hs generalizing b l path with
  | nil => exact ⟨b, fun _ before _ _ => ⟨before, rfl⟩, h, .refl _ b⟩
  | @other rest t after ht hready hrest ih =>
    obtain ⟨b', hcarries, hagrees, hkept⟩ := ih h hdepth hinside
    exact ⟨b', hcarries.other ht hready hinside, hagrees, hkept⟩
  | @block body rest opened closed inner after hopened hbody hclosed hrest ihbody ihrest =>
    rw [Declarations.nesting_append] at hdepth
    rw [Declarations.listing_append]
    have hin : b.openBrace.Agrees l path := ⟨h.tree, h.here, h.entries⟩
    obtain ⟨last, hlast, hagrees, hkept⟩ := ihbody hin (by omega) (Nat.lt_succ_of_lt hinside)
    obtain ⟨hback, hkept⟩ := hagrees.closeBlock hkept closed
    obtain ⟨b', hcarries, hagrees', hkept'⟩ := ihrest hback (by omega) (by rwa [hkept.frames])
    exact ⟨b', hlast.block hopened hclosed hcarries, hagrees', hkept.trans hkept'⟩
  | @classDef kind name body rest key t opened closed inner after hkind hkey hname hopened hbody
      hclosed hrest ihbody ihrest =>
    rw [Declarations.nesting] at hdepth
    obtain ⟨mid, hclass, hback, hkept⟩ := h.classBlock hkind hkey hname hopened hclosed (by omega)
      (Nat.le_of_lt hinside) fun block hin hdeeper => ihbody hin (by simp; omega) hdeeper
    obtain ⟨b', hcarries, hagrees', hkept'⟩ := ihrest hback (by omega) (by rwa [hkept.frames])
    refine ⟨b', fun d before rest hb => ?_, hagrees', hkept.trans hkept'⟩
    simp only [List.cons_append, List.append_assoc]
    rw [hclass d before (after ++ rest) (hb.clear hkind hkey)]
    exact hcarries d _ rest (ready_of_reads hclosed (by simp) _)
  | @forward kind name rest key t stop after hkind hkey hname hstop hrest ih =>
    rw [Declarations.nesting] at hdepth
    obtain ⟨mid, hforward, hagrees, hkept⟩ :=
      h.forward (plain_of_not_mem (hname.not_mem ':' (by decide))) (by omega)
    obtain ⟨b', hcarries, hagrees', hkept'⟩ := ih hagrees (by omega) (by rwa [hkept.frames])
    refine ⟨b', fun d before rest hb => ?_, hagrees', hkept.trans hkept'⟩
    simp only [List.cons_append]
    rw [declarators_class hkind hkey hname hstop (.inr rfl) ((if_pos rfl).trans hforward)
      (hb.clear hkind hkey)]
    exact hcarries d _ rest (ready_of_reads hstop (by simp) _)

theorem carries_of_seen_nil {ds : Declarations} (hs : ds.Seen tokens) (hnil : ds = .nil)
    (hinside : depth < b.frames.count) : Carries depth b tokens b := by
  induction hs generalizing b with
  | nil => exact fun _ before _ _ => ⟨before, rfl⟩
  | other ht hready _ ih => exact (ih hnil hinside).other ht hready hinside
  | block hopened _ hclosed _ ihbody ihrest =>
    obtain ⟨hbody, hrest⟩ := Declarations.append_eq_nil hnil
    have hdeeper : depth < b.openBrace.frames.count := Nat.lt_succ_of_lt hinside
    exact (ihbody hbody hdeeper).block hopened hclosed (ihrest hrest hinside)
  | classDef | forward => cases hnil

theorem declarators_block {d : Declarators} {opened closed : Token}
    (hopened : opened.Reads .punctuator "\x7b") (hs : Declarations.Seen .nil tokens)
    (hclosed : closed.Reads .punctuator "\x7d") (hdepth : depth ≤ b.frames.count)
    (before : Option Token) (rest : List Token) :
    b.declarators depth d ⟨before, opened :: (tokens ++ closed :: rest)⟩ =
      b.declarators depth d ⟨some closed, rest⟩ := by
  have hinside : depth < b.openBrace.frames.count := Nat.lt_succ_of_le hdepth
  obtain ⟨last, hlast⟩ := carries_of_seen_nil hs rfl hinside d (some opened) (closed :: rest)
    (ready_of_reads hopened (by simp) _)
  rw [declarators_brace hopened (.inl rfl), passToken_opened hopened, hlast,
    declarators_brace hclosed (.inr rfl), passToken_closed hclosed, closeBrace_openBrace]

/-! The whole typedef. -/

theorem declarators_last {y stop : Token} {Y : String} {d : Declarators} (hy : y.Names Y)
    (hstop : stop.Reads .punctuator ";") (htop : b.frames.count = depth) (hparens : d.parens = 0)
    (hangles : d.angles = 0) (before : Option Token) (rest : List Token) :
    b.declarators depth d ⟨before, y :: stop :: rest⟩ =
      .ok (b, { d with last := some Y }.finish, ⟨some stop, rest⟩) := by
  rw [declarators_name hy htop hparens]
  exact declarators_stop (d := { d with last := some Y }) hstop htop hparens hangles _ rest

section Statement
variable {word key x opened closed y stop : Token} {X Y : String}
  (hword : word.Reads .keyword "typedef") (hx : x.Names X)
  (hopened : opened.Reads .punctuator "\x7b") (hclosed : closed.Reads .punctuator "\x7d")
  (hy : y.Names Y) (hstop : stop.Reads .punctuator ";")
include hword hx hopened hclosed hy hstop

/-- A class that a typedef defines is listed with what is seen in it, then the name of the typedef. -/
theorem Agrees.typedefClass {kind : EntryKind} {ds : Declarations} (h : b.Agrees l path)
    (hkind : kind ∈ EntryKind.classKinds) (hkey : key.Reads .keyword kind.keyword)
    (hs : ds.Seen tokens) (hdepth : path.length + ds.nesting < ScopeError.depthLimit) :
    ∃ b' l', Passes b (word :: key :: x :: opened :: (tokens ++ [closed, y, stop])) b' ∧
      b'.Agrees l' path ∧ Kept path.length b b' ∧ l'.entries =
        ((Declarations.classDef kind key.beginLine X ds .nil).listing path l).entries ++
          [⟨.typedef, Listing.shown path Y, word.beginLine⟩] := by
  obtain ⟨mid, hclass, hagrees, hkept⟩ := h.classBlock hkind hkey hx hopened hclosed (by omega)
    (Nat.le_refl b.frames.count) fun block hin hdeeper => hin.seen hs (by simp; omega) hdeeper
  have hclear : Clear (some word) := by
    rintro p ⟨⟩
    rw [hword.2]
    decide
  have hd : ∀ rest, b.declarators b.frames.count .none
      ⟨some word, key :: x :: opened :: (tokens ++ [closed, y, stop]) ++ rest⟩ =
        .ok (mid, { Declarators.none with last := some Y }.finish, ⟨some stop, rest⟩) := by
    intro rest
    have hrun := hclass .none (some word) (y :: stop :: rest) hclear
    rw [declarators_last hy hstop (by rw [hkept.frames]) rfl rfl] at hrun
    simpa using hrun
  have hname : ∀ name ∈ [Y], ':' ∉ name.toList ∧ name ≠ "" := by
    simpa using ⟨hy.not_mem ':' (by decide), hy.ne_empty⟩
  exact hagrees.typedef hword hstop hd hkept hname

/-- Of an enumeration that a typedef defines only the name of the typedef is listed. -/
theorem Agrees.typedefEnum (h : b.Agrees l path) (hkey : key.Reads .keyword "enum")
    (hinner : Enumerators tokens) :
    ∃ b' l', Passes b (word :: key :: x :: opened :: (tokens ++ [closed, y, stop])) b' ∧
      b'.Agrees l' path ∧ Kept path.length b b' ∧ l'.entries =
        l.entries ++ [⟨.typedef, Listing.shown path Y, word.beginLine⟩] := by
  have hd : ∀ rest, b.declarators b.frames.count .none
      ⟨some word, key :: x :: opened :: (tokens ++ [closed, y, stop]) ++ rest⟩ =
        .ok (b, { Declarators.none with last := some Y }.finish, ⟨some stop, rest⟩) := by
    intro rest
    simp only [List.cons_append, List.append_assoc, List.nil_append]
    -- the name of the enumeration is taken for a declarator, then replaced by the last name
    rw [declarators_plain (hkey.idle (by decide)) (by rw [hkey.2]; decide) (by simp [hkey.is]) rfl,
      declarators_name hx rfl rfl, declarators_block hopened hinner.seen hclosed (Nat.le_refl _),
      declarators_last hy hstop rfl rfl rfl]
  have hname : ∀ name ∈ [Y], ':' ∉ name.toList ∧ name ≠ "" := by
    simpa using ⟨hy.not_mem ':' (by decide), hy.ne_empty⟩
  exact h.typedef hword hstop hd (.refl _ b) hname

end Statement
end Builder

namespace Outline
open Builder

section Statement
variable {word key x opened closed y stop : Token} {X Y : String} {inner rest : List Token}
  (hword : word.Reads .keyword "typedef") (hx : x.Names X)
  (hopened : opened.Reads .punctuator "\x7b") (hclosed : closed.Reads .punctuator "\x7d")
  (hy : y.Names Y) (hstop : stop.Reads .punctuator ";") (hrest : ∀ t ∈ rest.head?, t.isEof)
include hword hx hopened hclosed hy hstop hrest

theorem exists_typedefClass {kind : EntryKind} {ds : Declarations}
    (hkind : kind ∈ EntryKind.classKinds) (hkey : key.Reads .keyword kind.keyword)
    (hs : ds.Seen inner) (hdepth : ds.nesting < ScopeError.depthLimit) :
    ∃ o, (ofTokens (word :: key :: x :: opened :: (inner ++ [closed, y, stop]) ++ rest)).value =
        .ok o ∧
      o.entries = ((Declarations.classDef kind key.beginLine X ds .nil).listing [] .empty).entries ++
        [⟨.typedef, Y, word.beginLine⟩] := by
  obtain ⟨b, l, hpasses, hagrees, -, hentries⟩ := agrees_start.typedefClass hword hx hopened hclosed
    hy hstop hkind hkey hs (by simpa using hdepth)
  obtain ⟨o, ho, hsame⟩ := exists_of_passes hpasses hrest
  refine ⟨o, ho, ?_⟩
  rw [hsame, hagrees.entries, hentries]
  simp [Listing.shown, hy.ne_empty]

theorem exists_typedefEnum (hkey : key.Reads .keyword "enum") (hinner : Enumerators inner) :
    ∃ o p, (ofTokens (word :: key :: x :: opened :: (inner ++ [closed, y, stop]) ++ rest)).value =
        .ok o ∧
      (ofTokens (key :: x :: opened :: (inner ++ [closed, stop]) ++ rest)).value = .ok p ∧
      o.entries = [⟨.typedef, Y, word.beginLine⟩] ∧ p.entries = [⟨.enumDef, X, key.beginLine⟩] := by
  obtain ⟨b, l, hpasses, hagrees, -, hentries⟩ := agrees_start.typedefEnum hword hx hopened hclosed
    hy hstop hkey hinner
  obtain ⟨o, ho, hsame⟩ := exists_of_passes hpasses hrest
  have hspells := Declarations.Spells.enumDef hkey (.inl rfl) hx hopened hinner hclosed hstop .nil
  obtain ⟨b', hpasses', hagrees', -⟩ := agrees_start.spells hspells (by simp [Declarations.nesting])
  obtain ⟨p, hp, hsame'⟩ := exists_of_passes hpasses' hrest
  refine ⟨o, p, ho, hp, ?_, ?_⟩
  · rw [hsame, hagrees.entries, hentries]
    simp [Listing.shown, hy.ne_empty, Listing.empty]
  · rw [hsame', hagrees'.entries]
    simp [Declarations.listing, Listing.record, Listing.declare, Listing.shown, hx.ne_empty,
      Listing.empty]

end Statement

/-- A class defined in a typedef has the outline of the plain definition, and the name of the typedef
after it, if there are only classes in it. If not, only the classes in it are listed. Of an
enumeration the typedef lists its own name alone. -/
theorem entries_typedef_definition (key : Token) (inner : List Token)
    {word x opened closed y stop : Token} {X Y : String} {rest : List Token}
    (hword : word.Reads .keyword "typedef") (hx : x.Names X)
    (hopened : opened.Reads .punctuator "\x7b") (hclosed : closed.Reads .punctuator "\x7d")
    (hy : y.Names Y) (hstop : stop.Reads .punctuator ";") (hrest : ∀ t ∈ rest.head?, t.isEof) :
    let statement := word :: key :: x :: opened :: (inner ++ [closed, y, stop])
    let plain := key :: x :: opened :: (inner ++ [closed, stop])
    let named : Entry := ⟨.typedef, Y, word.beginLine⟩
    (∀ kind ∈ EntryKind.classKinds, key.Reads .keyword kind.keyword →
      ∀ body : Declarations, body.Spells inner → body.nesting < ScopeError.depthLimit →
        (body.ClassesOnly →
          ∃ o p, (ofTokens (statement ++ rest)).value = .ok o ∧
            (ofTokens (plain ++ rest)).value = .ok p ∧ o.entries = p.entries ++ [named]) ∧
        (KeysLead inner →
          ∃ o, (ofTokens (statement ++ rest)).value = .ok o ∧ o.entries =
            ((Declarations.classDef kind key.beginLine X body.classes .nil).listing [] .empty).entries ++
              [named])) ∧
    (key.Reads .keyword "enum" → Enumerators inner →
      ∃ o p, (ofTokens (statement ++ rest)).value = .ok o ∧
        (ofTokens (plain ++ rest)).value = .ok p ∧ o.entries = [named] ∧
        p.entries = [⟨.enumDef, X, key.beginLine⟩]) := by
  intro statement plain named
  refine ⟨fun kind hkind hkey body hs hdepth => ?_, fun hkey hinner => ?_⟩
  · have hclasses := fun h : body.ClassesOnly ∨ KeysLead inner =>
      exists_typedefClass hword hx hopened hclosed hy hstop hrest hkind hkey (hs.seen h)
        (Nat.lt_of_le_of_lt body.nesting_classes_le hdepth)
    refine ⟨fun honly => ?_, fun hkeys => hclasses (.inr hkeys)⟩
    obtain ⟨o, ho, hentries⟩ := hclasses (.inl honly)
    rw [honly.classes_eq] at hentries
    have hspells := Declarations.Spells.classDef hkind hkey hx hopened hs hclosed hstop .nil
    have hlimit : (Declarations.classDef kind key.beginLine X body .nil).nesting ≤
        ScopeError.depthLimit := by
      simp only [Declarations.nesting]
      omega
    obtain ⟨b, hpasses, hagrees, -⟩ := agrees_start.spells hspells (by simpa using hlimit)
    obtain ⟨p, hp, hsame⟩ := exists_of_passes hpasses hrest
    exact ⟨o, p, ho, hp, by rw [hentries, hsame, hagrees.entries]⟩
  · exact exists_typedefEnum hword hx hopened hclosed hy hstop hrest hkey hinner

/-- A union with a class in it, a class with an enumeration and a namespace in it, and an
enumeration. -/
theorem entries_typedef_definition_nested :
    let token := fun kind image => Token.plain kind image (.point .start)
    let keyword := token .keyword
    let name := token .identifier
    let mark := token .punctuator
    let plain := fun key inner => keyword key :: name "X" :: mark "\x7b" ::
      (inner ++ [mark "\x7d", mark ";"])
    let statement := fun key inner => keyword "typedef" :: keyword key :: name "X" :: mark "\x7b" ::
      (inner ++ [mark "\x7d", name "Y", mark ";"])
    let struct := [keyword "struct", name "S", mark "\x7b", mark "\x7d", mark ";"]
    let enumerators := [name "a", mark ",", name "b"]
    let mixed := keyword "enum" :: name "E" :: mark "\x7b" :: (enumerators ++ mark "\x7d" ::
      mark ";" :: keyword "namespace" :: ([name "N"] ++ mark "\x7b" :: (struct ++ [mark "\x7d"])))
    (∃ o p, (ofTokens (statement "union" struct ++ [token .eof ""])).value = .ok o ∧
      (ofTokens (plain "union" struct ++ [token .eof ""])).value = .ok p ∧
      o.entries = p.entries ++ [⟨.typedef, "Y", 1⟩]) ∧
    (∃ o, (ofTokens (statement "class" mixed ++ [token .eof ""])).value = .ok o ∧
      o.entries = [⟨.classDef, "X", 1⟩, ⟨.structDef, "X::S", 1⟩, ⟨.typedef, "Y", 1⟩]) ∧
    ∃ o p, (ofTokens (statement "enum" enumerators ++ [token .eof ""])).value = .ok o ∧
      (ofTokens (plain "enum" enumerators ++ [token .eof ""])).value = .ok p ∧
      o.entries = [⟨.typedef, "Y", 1⟩] ∧ p.entries = [⟨.enumDef, "X", 1⟩] := by
  intro token keyword name mark plain statement struct enumerators mixed
  have hreads : ∀ kind image, (token kind image).Reads kind image := fun _ _ => ⟨rfl, rfl⟩
  have hopened := hreads .punctuator "\x7b"
  have hclosed := hreads .punctuator "\x7d"
  have hstop := hreads .punctuator ";"
  have hX : (name "X").Names "X" := ⟨hreads _ _, 'X', [], by decide, by decide⟩
  have hY : (name "Y").Names "Y" := ⟨hreads _ _, 'Y', [], by decide, by decide⟩
  have hS : (name "S").Names "S" := ⟨hreads _ _, 'S', [], by decide, by decide⟩
  have hE : (name "E").Names "E" := ⟨hreads _ _, 'E', [], by decide, by decide⟩
  have hN : (name "N").Names "N" := ⟨hreads _ _, 'N', [], by decide, by decide⟩
  have ha : (name "a").Names "a" := ⟨hreads _ _, 'a', [], by decide, by decide⟩
  have hb : (name "b").Names "b" := ⟨hreads _ _, 'b', [], by decide, by decide⟩
  have hstruct : (Declarations.classDef .structDef 1 "S" .nil .nil).Spells struct :=
    .classDef (by decide) (hreads _ _) hS hopened .nil hclosed hstop .nil
  have hinner : Enumerators enumerators := .cons ha (hreads _ _) (.one hb)
  have hspace := Declarations.Spells.namespaceDef (hreads .keyword "namespace") (.inr (.one hN))
    hopened hstruct hclosed .nil
  have hmixed := Declarations.Spells.enumDef (hreads .keyword "enum") (.inl rfl) hE hopened hinner
    hclosed hstop hspace
  have hrest : ∀ t ∈ [token .eof ""].head?, t.isEof := by decide
  have hmain := fun key inner => entries_typedef_definition key inner (hreads .keyword "typedef") hX
    hopened hclosed hY hstop hrest
  refine ⟨?_, ?_, ?_⟩
  · have hunion := (hmain (keyword "union") struct).1 .unionDef (by decide) (hreads _ _)
    exact (hunion _ hstruct (by decide)).1 ⟨trivial, trivial⟩
  · have hclass := (hmain (keyword "class") mixed).1 .classDef (by decide) (hreads _ _)
    obtain ⟨o, ho, hentries⟩ := (hclass _ hmixed (by decide)).2 (by decide)
    exact ⟨o, ho, hentries.trans (by decide +kernel)⟩
  · exact (hmain (keyword "enum") enumerators).2 (hreads _ _) hinner

/-- An enumeration that is listed when it is defined alone is not listed when a typedef defines it. -/
theorem typedef_enum_unlisted :
    let token := fun kind image => Token.plain kind image (.point .start)
    let enumeration := [token .keyword "enum", token .identifier "Color", token .punctuator "\x7b",
      token .identifier "Red", token .punctuator "\x7d"]
    ∃ o p, (ofTokens (token .keyword "typedef" :: enumeration ++
        [token .identifier "Shade", token .punctuator ";"])).value = .ok o ∧
      (ofTokens (enumeration ++ [token .punctuator ";"])).value = .ok p ∧
      p.entries = [⟨.enumDef, "Color", 1⟩] ∧ o.entries ≠ p.entries ++ [⟨.typedef, "Shade", 1⟩] := by
  intro token enumeration
  have hreads : ∀ kind image, (token kind image).Reads kind image := fun _ _ => ⟨rfl, rfl⟩
  have hcolor : (token .identifier "Color").Names "Color" :=
    ⟨hreads _ _, 'C', ['o', 'l', 'o', 'r'], by decide, by decide⟩
  have hshade : (token .identifier "Shade").Names "Shade" :=
    ⟨hreads _ _, 'S', ['h', 'a', 'd', 'e'], by decide, by decide⟩
  have hred : (token .identifier "Red").Names "Red" :=
    ⟨hreads _ _, 'R', ['e', 'd'], by decide, by decide⟩
  obtain ⟨o, p, ho, hp, hentries, hplain⟩ := exists_typedefEnum (hreads .keyword "typedef") hcolor
    (hreads .punctuator "\x7b") (hreads .punctuator "\x7d") hshade (hreads .punctuator ";")
    (show ∀ t ∈ ([] : List Token).head?, t.isEof by simp) (hreads .keyword "enum") (.one hred)
  refine ⟨o, p, ho, hp, hplain, ?_⟩
  rw [hentries, hplain]
  decide

end Outline
end SourceOutline
