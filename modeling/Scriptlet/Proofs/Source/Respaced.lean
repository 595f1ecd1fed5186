/-
Lexemes written in a row with blanks and comments between them are scanned as the same tokens.

A lexeme ends where a blank stands behind it, whatever the lexeme is, and layout is passed over
without a trace but for the count of lines.  So only the lines of tokens depend on the layout: a
tree has the same shape, names and literals in every layout, and where there is none the same
faults are found.
-/
import Mathlib.Data.List.Forall2
import Scriptlet.Proofs.Incremental.Reading
import Scriptlet.Proofs.Source.Cuts

namespace Scriptlet.Source

/-- Blanks, and comments each with the line feed that ends it. -/
inductive Layout : List Char → Prop
  | nil : Layout []
  | blank {c : Char} {rest : List Char} (h : c ∈ [' ', '\r', '\t', '\n']) (hrest : Layout rest) :
      Layout (c :: rest)
  | comment {text rest : List Char} (h : '\n' ∉ text) (hrest : Layout rest) :
      Layout ('/' :: '/' :: (text ++ '\n' :: rest))

/-- Layout that begins with a blank. -/
def Separator (text : String) : Prop :=
  ∃ c rest, text.toList = c :: rest ∧ c ∈ [' ', '\r', '\t', '\n'] ∧ Layout rest

/-- The lexemes in a row, each behind its gap. -/
def spread : List String → List Token → String
  | gap :: gaps, token :: tokens => gap ++ token.lexeme ++ spread gaps tokens
  | _, _ => ""

/-- The lexemes in a row, with a separator between any two. -/
def respaced (separators : List String) (tokens : List Token) : String :=
  spread ("" :: separators) tokens

/-- The token, on the line on which its lexeme ends in a text that is laid out with these gaps
from the given line on. -/
def placed (line : Nat) (gaps : List String) (tokens : List Token) (i : Nat) (token : Token) :
    Token :=
  { token with line := line + newlines (spread (gaps.take (i + 1)) (tokens.take (i + 1))) }

theorem Separator.layout {text : String} (h : Separator text) : Layout text.toList := by
  obtain ⟨c, rest, htext, hblank, hrest⟩ := h
  rw [htext]
  exact .blank hblank hrest

section Layout

variable {line : Nat} {more behind : List Char}

/-- Nothing is found in layout, but its lines are counted. -/
theorem number_layout {gap : List Char} (h : Layout gap) :
    number line (pieces (gap ++ more)) = number (line + gap.count '\n') (pieces more) := by
  induction h generalizing line with
  | nil => rfl
  | @blank c rest hblank _ ih =>
      have hcut : nextPiece c (rest ++ more) = (.blank c, rest ++ more) :=
        if_pos (isBlank_iff.mpr hblank)
      rw [List.cons_append, pieces_cons, hcut, number_cons, ih, ← List.singleton_append,
        List.count_append, ← Nat.add_assoc]
      rfl
  | @comment text rest hline _ ih =>
      have hcut : nextPiece '/' ('/' :: (text ++ ('\n' :: (rest ++ more)))) =
          (.comment ('/' :: '/' :: text), '\n' :: (rest ++ more)) :=
        slashPiece_comment (forall_ne_of_not_mem hline) rfl
      have htext : text.count '\n' = 0 := List.count_eq_zero.mpr hline
      have hnone : Piece.newlines (.comment ('/' :: '/' :: text)) = 0 := htext
      have hlines : ('/' :: '/' :: (text ++ '\n' :: rest)).count '\n' = 1 + rest.count '\n' := by
        rw [List.count_cons_of_ne (by decide), List.count_cons_of_ne (by decide),
          List.count_append, htext, List.count_cons_self, Nat.zero_add, Nat.add_comm]
      rw [List.cons_append, List.cons_append, List.append_assoc, List.cons_append, pieces_cons,
        hcut, number_cons, hnone, number_newline, ih, hlines, ← Nat.add_assoc]
      rfl

/-- A lexeme with a blank or nothing behind it gives its token. -/
theorem number_lexeme {kind : Kind} {lexeme : String} (h : Spells kind lexeme.toList)
    (hbehind : Apart behind) :
    number line (pieces (lexeme.toList ++ behind)) =
      (.token ⟨kind, lexeme, line + newlines lexeme⟩ ::
          (number (line + newlines lexeme) (pieces behind)).1,
        (number (line + newlines lexeme) (pieces behind)).2) := by
  obtain ⟨c, rest, hchars, hheaded⟩ := h.headed
  have hlexeme : String.ofList (c :: rest) = lexeme := by rw [← hchars, String.ofList_toList]
  have hlines : Piece.newlines (.lexeme kind (c :: rest)) = newlines lexeme := by
    rw [newlines, hchars]
    rfl
  rw [hchars, List.cons_append, pieces_cons, hheaded.nextPiece_apart hbehind, number_cons, hlines,
    item?, hlexeme]
  rfl

end Layout

section Lone

variable {kind : Kind} {lexeme : String}

theorem number_lone (h : Spells kind lexeme.toList) (line : Nat) :
    number line (pieces lexeme.toList) =
      ([.token ⟨kind, lexeme, line + newlines lexeme⟩], line + newlines lexeme) := by
  have hnumber : number line (pieces (lexeme.toList ++ [])) = _ := number_lexeme h nofun
  rw [List.append_nil, pieces_nil] at hnumber
  exact hnumber

/-- A lexeme alone is one token. -/
theorem scan_lexeme (h : Spells kind lexeme.toList) :
    scan lexeme =
      ⟨[⟨kind, lexeme, 1 + newlines lexeme⟩, endToken (1 + newlines lexeme)], []⟩ := by
  unfold scan items
  rw [number_lone h]
  rfl

end Lone

section Spread

variable {gap : String} {gaps : List String} {token : Token} {tokens : List Token}

theorem toList_spread_cons : (spread (gap :: gaps) (token :: tokens)).toList =
    gap.toList ++ (token.lexeme.toList ++ (spread gaps tokens).toList) := by
  rw [spread, String.toList_append, String.toList_append, List.append_assoc]

theorem newlines_spread_cons : newlines (spread (gap :: gaps) (token :: tokens)) =
    newlines gap + (newlines token.lexeme + newlines (spread gaps tokens)) := by
  rw [newlines, toList_spread_cons, List.count_append, List.count_append]
  rfl

theorem placed_zero (line : Nat) (other : Token) :
    placed line (gap :: gaps) (token :: tokens) 0 other =
      { other with line := line + newlines gap + newlines token.lexeme } := by
  have hlines : newlines (spread [gap] [token]) = newlines gap + newlines token.lexeme :=
    newlines_spread_cons
  rw [Nat.add_assoc, ← hlines]
  rfl

theorem placed_succ (line : Nat) :
    (fun i => placed line (gap :: gaps) (token :: tokens) (i + 1)) =
      placed (line + newlines gap + newlines token.lexeme) gaps tokens := by
  funext i other
  rw [placed, List.take_succ_cons, List.take_succ_cons, newlines_spread_cons, ← Nat.add_assoc,
    ← Nat.add_assoc]
  rfl

theorem apart_spread (h : ∀ gap ∈ gaps, Separator gap) : Apart (spread gaps tokens).toList := by
  match gaps, tokens with
  | [], _ | _ :: _, [] => exact nofun
  | gap :: _, token :: _ =>
      obtain ⟨c, rest, hgap, hblank, -⟩ := h gap List.mem_cons_self
      rw [toList_spread_cons, hgap]
      rintro d ⟨⟩
      exact isBlank_iff.mpr hblank

/-- Lexemes that are laid out give their tokens, and no faults.  The first of them may stand
behind any layout, even behind none. -/
theorem number_spread (hlength : tokens.length ≤ gaps.length)
    (htokens : ∀ token ∈ tokens, Spells token.kind token.lexeme.toList)
    (hgaps : ∀ gap ∈ gaps, Layout gap.toList) (hlater : ∀ gap ∈ gaps.tail, Separator gap)
    (line : Nat) :
    (number line (pieces (spread gaps tokens).toList)).1 =
      (tokens.mapIdx (placed line gaps tokens)).map Item.token := by
  induction tokens generalizing gaps line with
  | nil =>
      have hnone : spread gaps [] = "" := by cases gaps <;> rfl
      rw [hnone, String.toList_empty, pieces_nil]
      rfl
  | cons token rest ih =>
      obtain ⟨gap, others, rfl⟩ : ∃ gap others, gaps = gap :: others := by
        cases gaps with
        | nil => cases hlength
        | cons gap others => exact ⟨gap, others, rfl⟩
      obtain ⟨htoken, hrest⟩ := List.forall_mem_cons.mp htokens
      obtain ⟨hgap, hothers⟩ := List.forall_mem_cons.mp hgaps
      have hbehind : ∀ gap ∈ others.tail, Separator gap :=
        fun gap hmem => hlater gap (List.mem_of_mem_tail hmem)
      have hnext := ih (Nat.le_of_succ_le_succ hlength) hrest hothers hbehind
        (line + newlines gap + newlines token.lexeme)
      have hapart : Apart (spread others rest).toList := apart_spread hlater
      rw [toList_spread_cons, number_layout hgap, number_lexeme htoken hapart, List.mapIdx_cons,
        List.map_cons, placed_zero, placed_succ]
      exact congrArg (_ :: ·) hnext

/-- What is scanned from lexemes that are laid out. -/
theorem scan_spread (hlength : tokens.length ≤ gaps.length)
    (htokens : ∀ token ∈ tokens, Spells token.kind token.lexeme.toList)
    (hgaps : ∀ gap ∈ gaps, Layout gap.toList) (hlater : ∀ gap ∈ gaps.tail, Separator gap) :
    scan (spread gaps tokens) =
      ⟨tokens.mapIdx (placed 1 gaps tokens) ++ [endToken (1 + newlines (spread gaps tokens))],
        []⟩ := by
  have hitems := number_spread hlength htokens hgaps hlater 1
  have hlast := number_last 1 (spread gaps tokens).toList
  have htoken : Item.token? ∘ Item.token = some := rfl
  have hfault : Item.fault? ∘ Item.token = fun _ => none := rfl
  simp only [scan, items, hitems, hlast, List.filterMap_append, List.filterMap_map, htoken, hfault,
    List.filterMap_some, List.filterMap_none]
  rfl

end Spread

/-- Every token of a text has a lexeme that spells its kind. -/
theorem spells_of_mem_number {token : Token} (chars : List Char) :
    ∀ line, Item.token token ∈ (number line (pieces chars)).1 →
      Spells token.kind token.lexeme.toList := by
  fun_induction pieces chars with
  | case1 => exact fun _ h => absurd h List.not_mem_nil
  | case2 c rest next ih =>
      intro line h
      rw [number_cons] at h
      rcases List.mem_append.mp h with h | h
      · have hpiece := Option.mem_toList.mp h
        have hformed : Formed next.1 next.2 := formed_nextPiece c rest
        obtain ⟨kind, chars, hlexeme, rfl⟩ := item?_eq_token hpiece
        rw [hlexeme] at hformed
        cases hformed with
        | lexeme hspells =>
            rw [String.toList_ofList]
            exact hspells
      · exact ih _ h

theorem spells_of_mem_body {source : String} {token : Token} (h : token ∈ body source) :
    Spells token.kind token.lexeme.toList := by
  obtain ⟨item, hitem, htoken⟩ := List.mem_filterMap.mp h
  cases item with
  | token found =>
      cases htoken
      exact spells_of_mem_number _ _ hitem
  | fault _ => cases htoken

/-! ### What is parsed -/

section Parsed

open Grammar Incremental

/-- The same tokens, on whatever lines, and the same identities. -/
def layoutLink : Link :=
  .ofTrees (fun a b => b.kind = a.kind ∧ b.lexeme = a.lexeme) (fun a b => b = a) And.left And.right

def layoutPairing : Pairing where
  link := layoutLink
  lines _ _ := True
  later := 0
  line_of_tokens _ := trivial
  firstLine := trivial
  ids_ofCount _ := rfl

/-- Both are trees, and they are alike, or both are the same faults, on whatever lines.  As many
identities were handed out. -/
inductive ParsedAlike {α : Type} (alike : α → α → Prop) : Parsed α → Parsed α → Prop
  | tree {tree tree' : α} {issued : Nat} (h : alike tree tree') :
      ParsedAlike alike ⟨.ok tree, issued⟩ ⟨.ok tree', issued⟩
  | faults {faults faults' : List Diagnostic} {issued : Nat}
      (h : List.Forall₂ (SameFault fun _ _ => True) faults faults') :
      ParsedAlike alike ⟨.error faults, issued⟩ ⟨.error faults', issued⟩

variable {tokens tokens' : List Token}

/-- Lines make no difference to what a rule reads. -/
theorem parsedAlike_parse {α : Type} {produce : Produce α} {rule : Nat → Reader α}
    (hsteady : ∀ bound, Steady layoutPairing [] produce (rule bound) (rule bound))
    (htokens : List.Forall₂ layoutLink.tokens tokens tokens') (start : Nat) :
    ParsedAlike produce.alike (Reader.parse rule tokens start)
      (Reader.parse rule tokens' start) := by
  have hsame : SameParsed layoutPairing produce start (Reader.parse rule tokens start)
      (Reader.parse rule tokens' start) := sameParsed_parse hsteady htokens start
  generalize Reader.parse rule tokens start = parsed at hsame ⊢
  generalize Reader.parse rule tokens' start = parsed' at hsame ⊢
  cases hsame with
  | ok _ halike => exact .tree halike
  | error _ hfaults => exact .faults hfaults

theorem forall₂_mapIdx {α β : Type} {R : α → β → Prop} {f : Nat → α → β}
    (h : ∀ i a, R a (f i a)) (all : List α) : List.Forall₂ R all (all.mapIdx f) := by
  induction all generalizing f with
  | nil => exact .nil
  | cons first rest ih =>
      rw [List.mapIdx_cons]
      exact .cons (h 0 first) (ih fun i => h (i + 1))

/-- The lexemes of a text, written in a row with separators between them, are scanned as the same
tokens, each on the line on which its lexeme ends now, and without any fault.  What is parsed is
the same, too. -/
theorem scan_respaced {source : String} {tokens : List Token} {marker : Token}
    {separators : List String} (htokens : (scan source).tokens = tokens ++ [marker])
    (hlength : tokens.length ≤ separators.length + 1)
    (hseparators : ∀ separator ∈ separators, Separator separator) :
    (scan (respaced separators tokens)).faults = [] ∧
      (scan (respaced separators tokens)).tokens =
        (tokens.mapIdx fun i token => { token with
          line := 1 + newlines (respaced (separators.take i) (tokens.take (i + 1))) }) ++
          [endToken (1 + newlines (respaced separators tokens))] ∧
      ∀ firstId,
        ParsedAlike (AlikeStmts layoutLink) (parseProgram (scan source).tokens firstId)
            (parseProgram (scan (respaced separators tokens)).tokens firstId) ∧
          ParsedAlike (AlikeExpr layoutLink) (parseExpression (scan source).tokens firstId)
            (parseExpression (scan (respaced separators tokens)).tokens firstId) := by
  have hsame := htokens
  rw [scan_tokens] at hsame
  obtain ⟨rfl, rfl⟩ := List.append_singleton_inj.mp hsame
  have hgaps : ∀ gap ∈ "" :: separators, Layout gap.toList := by
    rintro gap (_ | ⟨_, hmem⟩)
    · exact .nil
    · exact (hseparators gap hmem).layout
  have hscan : scan (respaced separators (body source)) = _ :=
    scan_spread hlength (fun _ => spells_of_mem_body) hgaps hseparators
  have hlines : List.Forall₂ layoutLink.tokens (scan source).tokens
      (scan (respaced separators (body source))).tokens := by
    rw [hscan, htokens]
    exact List.rel_append (forall₂_mapIdx (fun _ _ => ⟨rfl, rfl⟩) _) (.cons ⟨rfl, rfl⟩ .nil)
  exact ⟨congrArg Scanned.faults hscan, congrArg Scanned.tokens hscan,
    fun firstId => ⟨parsedAlike_parse steady_program hlines firstId.toNat,
      parsedAlike_parse steady_wholeExpression hlines firstId.toNat⟩⟩

/-- Nothing stands between the lexemes, and one of them goes on over the end of a line. -/
def denseSource : String :=
  "!a==\"b\n//\"1.5"

def wideSeparators : List String :=
  [" ", "\n", "\t//=\n", "\r\n // or\n\n"]

theorem scan_respaced_dense :
    (scan denseSource).tokens = body denseSource ++
        [endToken (number 1 (pieces denseSource.toList)).2] ∧
      (body denseSource).length = 5 ∧
      (∀ separator ∈ wideSeparators, Separator separator) ∧
      (scan (respaced wideSeparators (body denseSource))).faults = [] := by
  have hlength : (body denseSource).length = 5 := by decide +kernel
  have hseparators : ∀ separator ∈ wideSeparators, Separator separator := by
    simp only [wideSeparators, List.forall_mem_cons]
    refine ⟨⟨_, _, rfl, by decide, .nil⟩, ⟨_, _, rfl, by decide, .nil⟩,
      ⟨_, _, rfl, by decide, @Layout.comment ['='] [] (by decide) .nil⟩,
      ⟨_, _, rfl, by decide, .blank (by decide) (.blank (by decide)
        (@Layout.comment [' ', 'o', 'r'] ['\n'] (by decide) (.blank (by decide) .nil)))⟩,
      List.forall_mem_nil _⟩
  have htokens := scan_tokens denseSource
  exact ⟨htokens, hlength, hseparators,
    (scan_respaced htokens (by rw [hlength]; decide) hseparators).1⟩

end Parsed

end Scriptlet.Source
