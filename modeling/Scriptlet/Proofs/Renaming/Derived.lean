/-
A program that differs in names is one that the grammar derives: from tokens that differ only
where a name stands.
-/
import Mathlib.Data.List.Forall2
import Scriptlet.Proofs.Grammar.Derives
import Scriptlet.Proofs.Renaming.Alpha

namespace Scriptlet.Renaming

open Grammar

/-- The token itself, or an identifier in another spelling. -/
def RespelledName (new : String) (token token' : Token) : Prop :=
  token' = token ∨ (token.kind = .identifier ∧ token' = token.respell new)

theorem RespelledName.kind_eq {new : String} {token token' : Token}
    (h : RespelledName new token token') : token'.kind = token.kind := by
  rcases h with rfl | ⟨-, rfl⟩
  · rfl
  · rfl

theorem Respelled.ofName {new : String} {token token' : Token} (h : Respelled new token token')
    (hname : token.kind = .identifier) : RespelledName new token token' :=
  h.imp_right fun heq => ⟨hname, heq⟩

/-- Trees of a symbol that differ in names. -/
def AlphaTree (new : String) : (symbol : Symbol) → symbol.Tree → symbol.Tree → Prop
  | .program | .declarations | .block =>
      fun tree tree' => ∃ pairs, AlphaStmts new true pairs tree tree'
  | .declaration | .statement _ | .variableDeclaration | .expressionStatement =>
      fun tree tree' => ∃ pairs, AlphaStmt new true pairs tree tree'
  | .initializer => fun tree tree' => ∃ pairs, AlphaStmts new true pairs tree.toList tree'.toList
  | .parameters | .parameterList =>
      fun tree tree' => ∃ pairs inside, AlphaParams new true pairs tree tree' inside
  | .optionalExpression =>
      fun tree tree' => ∃ pairs, AlphaExprs new pairs tree.toList tree'.toList
  | .lone | .expr _ => fun tree tree' => ∃ pairs, AlphaExpr new pairs tree tree'
  | .arguments | .argumentList => fun tree tree' => ∃ pairs, AlphaExprs new pairs tree tree'

section Trees

variable {new : String} {pairs : Pairs}

theorem alphaStmts_append {first second all : List Stmt}
    (h : AlphaStmts new true pairs (first ++ second) all) :
    ∃ first' second' between, all = first' ++ second' ∧ AlphaStmts new true pairs first first' ∧
      AlphaStmts new true between second second' := by
  induction first generalizing pairs all with
  | nil => exact ⟨[], all, pairs, rfl, .nil, h⟩
  | cons head rest ih =>
      cases h with
      | @cons _ _ head' _ _ hhead htail =>
          obtain ⟨rest', second', between, rfl, hrest, hsecond⟩ := ih htail
          exact ⟨head' :: rest', second', between, rfl, .cons hhead hrest, hsecond⟩

/-- What stands for an initializer, or for none. -/
theorem alphaStmts_toList {initial : Option Stmt} {all : List Stmt}
    (h : AlphaStmts new true pairs initial.toList all) :
    ∃ initial' : Option Stmt, all = initial'.toList := by
  cases initial with
  | none =>
      cases h
      exact ⟨none, rfl⟩
  | some stmt =>
      cases h with
      | @cons _ _ stmt' _ _ _ hrest =>
          cases hrest
          exact ⟨some stmt', rfl⟩

theorem alpha_node {level : Level} {sign : Token} {left right tree' : Expr}
    (h : AlphaExpr new pairs (level.node left sign right) tree') :
    ∃ left' right', tree' = level.node left' sign right' ∧ AlphaExpr new pairs left left' ∧
      AlphaExpr new pairs right right' := by
  cases level with
  | disjunction | conjunction =>
      cases h with
      | logical hleft hright => exact ⟨_, _, rfl, hleft, hright⟩
  | _ =>
      cases h with
      | binary hleft hright => exact ⟨_, _, rfl, hleft, hright⟩

theorem alpha_condition {condition : Option Expr} {constant : Constant} {tree' : Expr}
    (h : AlphaExpr new pairs (condition.getD (.constant constant)) tree') :
    ∃ condition' : Option Expr, tree' = condition'.getD (.constant constant) ∧
      AlphaExprs new pairs condition.toList condition'.toList := by
  cases condition with
  | none =>
      cases h
      exact ⟨none, rfl, .nil⟩
  | some value => exact ⟨some tree', rfl, .cons h .nil⟩

theorem alpha_loopRound {body round' : Stmt} {step : Option Expr}
    (h : AlphaStmt new true pairs (loopRound body step) round') :
    ∃ body' step' inside between, round' = loopRound body' step' ∧
      AlphaStmt new true inside body body' ∧
      AlphaExprs new between step.toList step'.toList := by
  cases step with
  | none => exact ⟨round', none, pairs, pairs, rfl, h, .nil⟩
  | some increment =>
      cases h with
      | block hround =>
          cases hround with
          | cons hbody htail =>
              cases htail with
              | cons hstep hnothing =>
                  cases hnothing
                  cases hstep with
                  | expression hvalue => exact ⟨_, some _, _, _, rfl, hbody, .cons hvalue .nil⟩

/-- The parts of a `for` may be anything that the parts of the other are like. -/
theorem alpha_for {initial : Option Stmt} {condition step : Option Expr} {constant : Constant}
    {body tree' : Stmt}
    (h : AlphaStmt new true pairs (.block (initial.toList ++
      [.loop (condition.getD (.constant constant)) (loopRound body step)])) tree') :
    ∃ initial' condition' step' body', tree' = .block (Option.toList initial' ++
        [.loop (Option.getD condition' (.constant constant)) (loopRound body' step')]) ∧
      AlphaTree new .initializer initial initial' ∧
      AlphaTree new .optionalExpression condition condition' ∧
      AlphaTree new .optionalExpression step step' ∧
      AlphaTree new (.statement false) body body' := by
  cases h with
  | block hbody =>
      obtain ⟨first', second', between, rfl, hinitial, hsecond⟩ := alphaStmts_append hbody
      obtain ⟨initial', rfl⟩ := alphaStmts_toList hinitial
      cases hsecond with
      | cons hloop hnothing =>
          cases hnothing
          cases hloop with
          | loop htest _ hround =>
              obtain ⟨condition', rfl, hcondition⟩ := alpha_condition htest
              obtain ⟨body', step', _, _, rfl, hinner, hstep⟩ := alpha_loopRound hround
              exact ⟨initial', condition', step', body', rfl, ⟨_, hinitial⟩, ⟨_, hcondition⟩,
                ⟨_, hstep⟩, ⟨_, hinner⟩⟩

theorem alpha_initial {initial : Stmt} {tree' : Option Stmt}
    (h : AlphaTree new .initializer (some initial) tree') :
    ∃ initial', tree' = some initial' ∧ ∃ pairs, AlphaStmt new true pairs initial initial' := by
  obtain ⟨pairs, halpha⟩ := h
  cases tree' with
  | none => cases halpha
  | some initial' =>
      cases halpha with
      | cons hinitial _ => exact ⟨initial', rfl, _, hinitial⟩

theorem alpha_optional {value : Expr} {tree' : Option Expr}
    (h : AlphaTree new .optionalExpression (some value) tree') :
    ∃ value', tree' = some value' ∧ ∃ pairs, AlphaExpr new pairs value value' := by
  obtain ⟨pairs, halpha⟩ := h
  cases tree' with
  | none => cases halpha
  | some value' =>
      cases halpha with
      | cons hvalue _ => exact ⟨value', rfl, _, hvalue⟩

theorem alpha_leave {keyword : Token} {value : Option Expr} {tree' : Stmt}
    (h : AlphaStmt new true pairs (.leave keyword value) tree') :
    ∃ value' : Option Expr, tree' = .leave keyword value' ∧
      AlphaExprs new pairs value.toList value'.toList := by
  cases h with
  | leave => exact ⟨none, rfl, .nil⟩
  | leaveWith hvalue => exact ⟨some _, rfl, .cons hvalue .nil⟩

end Trees

/-! ### Tokens for the second tree -/

section Derived

variable {new : String} {strict : Bool} {symbol : Symbol} {n m : Nat} {tokens : List Token}

theorem RespelledName.refl (token : Token) : RespelledName new token token :=
  Or.inl rfl

theorem same_cons {others others' : List Token} (token : Token)
    (h : List.Forall₂ (RespelledName new) others others') :
    List.Forall₂ (RespelledName new) (token :: others) (token :: others') :=
  .cons (.refl token) h

/-- A token that stays stands between two parts. -/
theorem same_between {front front' back back' : List Token} (token : Token)
    (hfront : List.Forall₂ (RespelledName new) front front')
    (hback : List.Forall₂ (RespelledName new) back back') :
    List.Forall₂ (RespelledName new) (front ++ token :: back) (front' ++ token :: back') :=
  List.rel_append hfront (.cons (.refl token) hback)

theorem same_append {others others' : List Token} (token : Token)
    (h : List.Forall₂ (RespelledName new) others others') :
    List.Forall₂ (RespelledName new) (others ++ [token]) (others' ++ [token]) :=
  List.rel_append h (same_cons token .nil)

/-- Whatever tree differs in names from that of the phrase, it is the tree of tokens that differ in
names. -/
def Respellable (new : String) (strict : Bool) (symbol : Symbol) (n : Nat) (tokens : List Token)
    (tree : symbol.Tree) (m : Nat) : Prop :=
  ∀ tree', AlphaTree new symbol tree tree' →
    ∃ tokens', List.Forall₂ (RespelledName new) tokens tokens' ∧
      Derives strict symbol n tokens' tree' m

/-- A phrase that is nothing but a phrase of another symbol. -/
theorem Respellable.under {other : Symbol} {inner : symbol.Tree} {outer : other.Tree}
    (h : Respellable new strict symbol n tokens inner m)
    (hrule : ∀ outer', AlphaTree new other outer outer' →
      ∃ inner', AlphaTree new symbol inner inner' ∧ ∀ tokens',
        Derives strict symbol n tokens' inner' m → Derives strict other n tokens' outer' m) :
    Respellable new strict other n tokens outer m := by
  intro outer' halpha
  obtain ⟨inner', hinner, hderives⟩ := hrule outer' halpha
  obtain ⟨tokens', hrespelled, hphrase⟩ := h inner' hinner
  exact ⟨tokens', hrespelled, hderives tokens' hphrase⟩

/-- A phrase between tokens that stay. -/
theorem Respellable.framed {other : Symbol} {inner : symbol.Tree} {outer : other.Tree}
    (h : Respellable new strict symbol n tokens inner m) (front : List Token) (last : Token)
    (hrule : ∀ outer', AlphaTree new other outer outer' →
      ∃ inner', AlphaTree new symbol inner inner' ∧ ∀ tokens',
        Derives strict symbol n tokens' inner' m →
          Derives strict other n (front ++ (tokens' ++ [last])) outer' m) :
    Respellable new strict other n (front ++ (tokens ++ [last])) outer m := by
  intro outer' halpha
  obtain ⟨inner', hinner, hderives⟩ := hrule outer' halpha
  obtain ⟨tokens', hrespelled, hphrase⟩ := h inner' hinner
  have hfront : List.Forall₂ (RespelledName new) front front :=
    List.forall₂_same.mpr fun token _ => .refl token
  exact ⟨_, List.rel_append hfront (same_append last hrespelled), hderives tokens' hphrase⟩

section Declarations

variable {k : Nat} {lead name lparen rparen : Token} {others : List Token} {body : List Stmt}

theorem respellable_declarations {first : Stmt} {rest : List Stmt}
    (hfirst : Respellable new strict .declaration n tokens first k)
    (hrest : Respellable new strict .declarations k others rest m) :
    Respellable new strict .declarations n (tokens ++ others) (first :: rest) m := by
  rintro body' ⟨pairs, halpha⟩
  cases halpha with
  | cons halphaFirst halphaRest =>
      obtain ⟨tokens', hrespelled, hhead⟩ := hfirst _ ⟨_, halphaFirst⟩
      obtain ⟨others', hothers, htail⟩ := hrest _ ⟨_, halphaRest⟩
      exact ⟨_, List.rel_append hrespelled hothers, .declarations hhead htail⟩

theorem respellable_function {params : List Token} (hlead : lead.IsKeyword .fun_)
    (hname : name.kind = .identifier) (hopen : lparen.IsMark .leftParen)
    (hparams : Respellable new strict .parameterList n tokens params n)
    (hclose : rparen.IsMark .rightParen) (hlimit : params.length ≤ arityLimit)
    (hbody : Respellable new strict .block n others body m) :
    Respellable new strict .declaration n (lead :: name :: lparen :: (tokens ++ rparen :: others))
      (.function name params body) m := by
  rintro tree' ⟨pairs, halpha⟩
  cases halpha with
  | function _ halphaParams halphaBody =>
      obtain ⟨paramTokens', hparamTokens, hderivesParams⟩ := hparams _ ⟨_, _, halphaParams⟩
      obtain ⟨bodyTokens', hbodyTokens, hderivesBody⟩ := hbody _ ⟨_, halphaBody⟩
      have hlimit' := halphaParams.length_eq.symm ▸ hlimit
      exact ⟨_, same_cons _ (same_cons _ (same_cons _ (same_between _ hparamTokens hbodyTokens))),
        .function hlead hname hopen hderivesParams hclose hlimit' hderivesBody⟩

theorem respellable_initialized {equals semicolon : Token} {initial : Expr}
    (hlead : lead.IsKeyword .var_) (hname : name.kind = .identifier)
    (hequal : equals.IsMark .equal)
    (hinitial : Respellable new strict (.expr .expression) n tokens initial m)
    (hend : semicolon.IsMark .semicolon) :
    Respellable new strict .variableDeclaration n
      (lead :: name :: equals :: (tokens ++ [semicolon])) (.declare name (some initial)) m := by
  rintro tree' ⟨pairs, halpha⟩
  cases halpha with
  | declareWith hspelled _ _ halphaInitial =>
      obtain ⟨tokens', hrespelled, hderives⟩ := hinitial _ ⟨_, halphaInitial⟩
      have hname' := hspelled.ofName hname
      exact ⟨_, same_cons _ (.cons hname' (same_cons _ (same_append _ hrespelled))),
        .initialized hlead (hname'.kind_eq.trans hname) hequal hderives hend⟩

end Declarations

section Statements

variable {i c s k l : Nat} {lead lparen rparen : Token} {dangling danglingTrue : Bool}
  {initialTokens conditionTokens stepTokens trueTokens falseTokens bodyTokens : List Token}
  {test : Expr} {body whenTrue whenFalse : Stmt}

theorem respellable_for {semicolon : Token} {initial : Option Stmt} {condition step : Option Expr}
    (hlead : lead.IsKeyword .for_) (hopen : lparen.IsMark .leftParen)
    (hinitial : Respellable new strict .initializer n initialTokens initial i)
    (htest : Respellable new strict .optionalExpression i conditionTokens condition c)
    (hend : semicolon.IsMark .semicolon)
    (hstep : Respellable new strict .optionalExpression c stepTokens step s)
    (hclose : rparen.IsMark .rightParen)
    (hinner : Respellable new strict (.statement dangling) s bodyTokens body m) :
    Respellable new strict (.statement dangling) n
      (lead :: lparen :: (initialTokens ++ (conditionTokens ++ semicolon ::
        (stepTokens ++ rparen :: bodyTokens))))
      (.block (initial.toList ++
        [.loop (condition.getD (.constant (.bool true))) (loopRound body step)])) m := by
  rintro tree' ⟨pairs, halpha⟩
  obtain ⟨initial', condition', step', body', rfl, halphaInitial, halphaTest, halphaStep,
    halphaInner⟩ := alpha_for halpha
  obtain ⟨initialTokens', hinitialTokens, hderivesInitial⟩ := hinitial _ halphaInitial
  obtain ⟨conditionTokens', hconditionTokens, hderivesTest⟩ := htest _ halphaTest
  obtain ⟨stepTokens', hstepTokens, hderivesStep⟩ := hstep _ halphaStep
  obtain ⟨bodyTokens', hbodyTokens, hderivesInner⟩ := hinner _ halphaInner
  have hclauses := List.rel_append hinitialTokens
    (same_between semicolon hconditionTokens (same_between rparen hstepTokens hbodyTokens))
  exact ⟨_, same_cons _ (same_cons _ hclauses),
    .for_ hlead hopen hderivesInitial hderivesTest hend hderivesStep hclose hderivesInner⟩

theorem respellable_if (hlead : lead.IsKeyword .if_) (hopen : lparen.IsMark .leftParen)
    (htest : Respellable new strict (.expr .expression) n conditionTokens test k)
    (hclose : rparen.IsMark .rightParen)
    (hinner : Respellable new strict (.statement dangling) k trueTokens whenTrue m) :
    Respellable new strict (.statement true) n
      (lead :: lparen :: (conditionTokens ++ rparen :: trueTokens)) (.branch test whenTrue none)
      m := by
  rintro tree' ⟨pairs, halpha⟩
  cases halpha with
  | branch halphaTest _ halphaInner =>
      obtain ⟨conditionTokens', hconditionTokens, hderivesTest⟩ := htest _ ⟨_, halphaTest⟩
      obtain ⟨trueTokens', htrueTokens, hderivesInner⟩ := hinner _ ⟨_, halphaInner⟩
      exact ⟨_, same_cons _ (same_cons _ (same_between _ hconditionTokens htrueTokens)),
        .if_ hlead hopen hderivesTest hclose hderivesInner⟩

theorem respellable_ifElse {else_ : Token} (hlead : lead.IsKeyword .if_)
    (hopen : lparen.IsMark .leftParen)
    (htest : Respellable new strict (.expr .expression) n conditionTokens test k)
    (hclose : rparen.IsMark .rightParen)
    (hinner : Respellable new strict (.statement danglingTrue) k trueTokens whenTrue l)
    (hnearest : strict → danglingTrue = false) (helse : else_.IsKeyword .else_)
    (hother : Respellable new strict (.statement dangling) l falseTokens whenFalse m) :
    Respellable new strict (.statement dangling) n
      (lead :: lparen :: (conditionTokens ++ rparen :: (trueTokens ++ else_ :: falseTokens)))
      (.branch test whenTrue (some whenFalse)) m := by
  rintro tree' ⟨pairs, halpha⟩
  cases halpha with
  | branchElse halphaTest _ halphaInner _ halphaOther =>
      obtain ⟨conditionTokens', hconditionTokens, hderivesTest⟩ := htest _ ⟨_, halphaTest⟩
      obtain ⟨trueTokens', htrueTokens, hderivesInner⟩ := hinner _ ⟨_, halphaInner⟩
      obtain ⟨falseTokens', hfalseTokens, hderivesOther⟩ := hother _ ⟨_, halphaOther⟩
      have hbranches := same_between else_ htrueTokens hfalseTokens
      exact ⟨_, same_cons _ (same_cons _ (same_between _ hconditionTokens hbranches)),
        .ifElse hlead hopen hderivesTest hclose hderivesInner hnearest helse hderivesOther⟩

theorem respellable_while (hlead : lead.IsKeyword .while_) (hopen : lparen.IsMark .leftParen)
    (htest : Respellable new strict (.expr .expression) n conditionTokens test k)
    (hclose : rparen.IsMark .rightParen)
    (hinner : Respellable new strict (.statement dangling) k bodyTokens body m) :
    Respellable new strict (.statement dangling) n
      (lead :: lparen :: (conditionTokens ++ rparen :: bodyTokens)) (.loop test body) m := by
  rintro tree' ⟨pairs, halpha⟩
  cases halpha with
  | loop halphaTest _ halphaInner =>
      obtain ⟨conditionTokens', hconditionTokens, hderivesTest⟩ := htest _ ⟨_, halphaTest⟩
      obtain ⟨bodyTokens', hbodyTokens, hderivesInner⟩ := hinner _ ⟨_, halphaInner⟩
      exact ⟨_, same_cons _ (same_cons _ (same_between _ hconditionTokens hbodyTokens)),
        .while_ hlead hopen hderivesTest hclose hderivesInner⟩

end Statements

section Expressions

variable {k : Nat} {others : List Token} {callee left right : Expr} {values : List Expr}

theorem respellable_operator {level next : Level} {sign : Token}
    (hlevel : level.tighter? = some next)
    (hleft : Respellable new strict (.expr level) n tokens left k)
    (hsign : sign.kind ∈ level.operators)
    (hright : Respellable new strict (.expr next) k others right m) :
    Respellable new strict (.expr level) n (tokens ++ sign :: others) (level.node left sign right)
      m := by
  rintro tree' ⟨pairs, halpha⟩
  obtain ⟨left', right', rfl, halphaLeft, halphaRight⟩ := alpha_node halpha
  obtain ⟨tokens', hrespelled, hderivesLeft⟩ := hleft _ ⟨_, halphaLeft⟩
  obtain ⟨others', hothers, hderivesRight⟩ := hright _ ⟨_, halphaRight⟩
  exact ⟨_, same_between _ hrespelled hothers,
    .operator hlevel hderivesLeft hsign hderivesRight⟩

theorem respellable_call {lparen rparen : Token}
    (hcallee : Respellable new strict (.expr .call) n tokens callee k)
    (hopen : lparen.IsMark .leftParen)
    (harguments : Respellable new strict .argumentList k others values m)
    (hclose : rparen.IsMark .rightParen) (hlimit : values.length ≤ arityLimit) :
    Respellable new strict (.expr .call) n (tokens ++ lparen :: (others ++ [rparen]))
      (.call callee rparen values) m := by
  rintro tree' ⟨pairs, halpha⟩
  cases halpha with
  | call halphaCallee halphaArguments =>
      obtain ⟨tokens', hrespelled, hderivesCallee⟩ := hcallee _ ⟨_, halphaCallee⟩
      obtain ⟨others', hothers, hderivesArguments⟩ := harguments _ ⟨_, halphaArguments⟩
      have hlimit' := halphaArguments.length_eq.symm ▸ hlimit
      exact ⟨_, same_between _ hrespelled (same_append _ hothers),
        .call hderivesCallee hopen hderivesArguments hclose hlimit'⟩

theorem respellable_constant {token : Token} {constant : Constant}
    (h : Derives strict (.expr .primary) n [token] (.constant constant) n) :
    Respellable new strict (.expr .primary) n [token] (.constant constant) n := by
  rintro tree' ⟨pairs, halpha⟩
  cases halpha
  exact ⟨_, same_cons _ .nil, h⟩

theorem respellable_arguments {comma : Token} {value : Expr}
    (hvalue : Respellable new strict (.expr .expression) n tokens value k)
    (hcomma : comma.IsMark .comma)
    (hrest : Respellable new strict .arguments k others values m) :
    Respellable new strict .arguments n (tokens ++ comma :: others) (value :: values) m := by
  rintro values' ⟨pairs, halpha⟩
  cases halpha with
  | cons halphaValue halphaRest =>
      obtain ⟨tokens', hrespelled, hderivesValue⟩ := hvalue _ ⟨_, halphaValue⟩
      obtain ⟨others', hothers, hderivesTail⟩ := hrest _ ⟨_, halphaRest⟩
      exact ⟨_, same_between _ hrespelled hothers, .arguments hderivesValue hcomma hderivesTail⟩

end Expressions

/-- Where the tree of a phrase differs in names, so do its tokens. -/
theorem derives_respelled {tree : symbol.Tree} (h : Derives strict symbol n tokens tree m) :
    Respellable new strict symbol n tokens tree m := by
  induction h with
  | program _ hmarker ih =>
      exact ih.framed [] _ fun _ halpha => ⟨_, halpha, fun _ hbody => .program hbody hmarker⟩
  | lone _ hmarker ih =>
      exact ih.framed [] _ fun _ halpha => ⟨_, halpha, fun _ hvalue => .lone hvalue hmarker⟩
  | nothing =>
      rintro body' ⟨pairs, halpha⟩
      cases halpha
      exact ⟨[], .nil, .nothing⟩
  | declarations _ _ ihHead ihTail => exact respellable_declarations ihHead ihTail
  | function hlead hname hopen _ hclose hlimit _ ihParameters ihBlock =>
      exact respellable_function hlead hname hopen ihParameters hclose hlimit ihBlock
  | var_ _ ih => exact ih.under fun _ halpha => ⟨_, halpha, fun _ => .var_⟩
  | statement _ ih => exact ih.under fun _ halpha => ⟨_, halpha, fun _ => .statement⟩
  | block hopen _ hclose ih =>
      exact ih.framed [_] _ fun _ halpha => ⟨_, halpha, fun _ hbody => .block hopen hbody hclose⟩
  | uninitialized hlead hname hend =>
      rintro tree' ⟨pairs, halpha⟩
      cases halpha with
      | declare hspelled _ _ =>
          have hname' := hspelled.ofName hname
          exact ⟨_, same_cons _ (.cons hname' (same_cons _ .nil)),
            .uninitialized hlead (hname'.kind_eq.trans hname) hend⟩
  | initialized hlead hname hequal _ hend ih =>
      exact respellable_initialized hlead hname hequal ih hend
  | expression _ ih => exact ih.under fun _ halpha => ⟨_, halpha, fun _ => .expression⟩
  | for_ hlead hopen _ _ hend _ hclose _ ihInitial ihTest ihStep ihInner =>
      exact respellable_for hlead hopen ihInitial ihTest hend ihStep hclose ihInner
  | if_ hlead hopen _ hclose _ ihTest ihInner =>
      exact respellable_if hlead hopen ihTest hclose ihInner
  | ifElse hlead hopen _ hclose _ hnearest helse _ ihTest ihInner ihOther =>
      exact respellable_ifElse hlead hopen ihTest hclose ihInner hnearest helse ihOther
  | print hlead _ hend ih =>
      apply ih.framed [_]
      rintro _ ⟨pairs, halpha⟩
      cases halpha with
      | print hvalue => exact ⟨_, ⟨_, hvalue⟩, fun _ hderives => .print hlead hderives hend⟩
  | return_ hlead _ hend ih =>
      apply ih.framed [_]
      rintro _ ⟨pairs, halpha⟩
      obtain ⟨value', rfl, hvalue⟩ := alpha_leave halpha
      exact ⟨value', ⟨_, hvalue⟩, fun _ hderives => .return_ hlead hderives hend⟩
  | while_ hlead hopen _ hclose _ ihTest ihInner =>
      exact respellable_while hlead hopen ihTest hclose ihInner
  | blockStatement _ ih =>
      apply ih.under
      rintro _ ⟨pairs, halpha⟩
      cases halpha with
      | block hbody => exact ⟨_, ⟨_, hbody⟩, fun _ => .blockStatement⟩
  | expressionStatement _ hend ih =>
      apply ih.framed []
      rintro _ ⟨pairs, halpha⟩
      cases halpha with
      | expression hvalue =>
          exact ⟨_, ⟨_, hvalue⟩, fun _ hderives => .expressionStatement hderives hend⟩
  | noInitializer hend =>
      rintro tree' ⟨pairs, halpha⟩
      cases tree' with
      | none => exact ⟨_, same_cons _ .nil, .noInitializer hend⟩
      | some _ => cases halpha
  | initialVariable _ ih =>
      apply ih.under
      intro _ halpha
      obtain ⟨stmt', rfl, hstmt⟩ := alpha_initial halpha
      exact ⟨stmt', hstmt, fun _ => .initialVariable⟩
  | initialExpression _ ih =>
      apply ih.under
      intro _ halpha
      obtain ⟨stmt', rfl, hstmt⟩ := alpha_initial halpha
      exact ⟨stmt', hstmt, fun _ => .initialExpression⟩
  | parameter hname =>
      rintro params' ⟨pairs, inside, halpha⟩
      cases halpha with
      | cons hspelled _ _ hnothing =>
          cases hnothing
          have hname' := hspelled.ofName hname
          exact ⟨_, .cons hname' .nil, .parameter (hname'.kind_eq.trans hname)⟩
  | parameters hname hcomma _ ih =>
      rintro params' ⟨pairs, inside, halpha⟩
      cases halpha with
      | cons hspelled _ _ hrest =>
          obtain ⟨tokens', hrespelled, hderives⟩ := ih _ ⟨_, _, hrest⟩
          have hname' := hspelled.ofName hname
          exact ⟨_, .cons hname' (same_cons _ hrespelled),
            .parameters (hname'.kind_eq.trans hname) hcomma hderives⟩
  | noParameters =>
      rintro params' ⟨pairs, inside, halpha⟩
      cases halpha
      exact ⟨[], .nil, .noParameters⟩
  | someParameters _ ih => exact ih.under fun _ halpha => ⟨_, halpha, fun _ => .someParameters⟩
  | noExpression =>
      rintro tree' ⟨pairs, halpha⟩
      cases tree' with
      | none => exact ⟨[], .nil, .noExpression⟩
      | some _ => cases halpha
  | someExpression _ ih =>
      apply ih.under
      intro _ halpha
      obtain ⟨value', rfl, hvalue⟩ := alpha_optional halpha
      exact ⟨value', hvalue, fun _ => .someExpression⟩
  | tighter hlevel _ ih => exact ih.under fun _ halpha => ⟨_, halpha, fun _ => .tighter hlevel⟩
  | assign hname hequal _ ih =>
      rintro tree' ⟨pairs, halpha⟩
      cases halpha with
      | assign hspelled _ hvalue =>
          obtain ⟨tokens', hrespelled, hderives⟩ := ih _ ⟨_, hvalue⟩
          have hname' := hspelled.ofName hname
          exact ⟨_, .cons hname' (same_cons _ hrespelled),
            .assign (hname'.kind_eq.trans hname) hequal hderives⟩
  | operator hlevel _ hsign _ ihLeft ihRight =>
      exact respellable_operator hlevel ihLeft hsign ihRight
  | unary hsign _ ih =>
      rintro tree' ⟨pairs, halpha⟩
      cases halpha with
      | unary hoperand =>
          obtain ⟨tokens', hrespelled, hderives⟩ := ih _ ⟨_, hoperand⟩
          exact ⟨_, same_cons _ hrespelled, .unary hsign hderives⟩
  | call _ hopen _ hclose hlimit ihCallee ihArguments =>
      exact respellable_call ihCallee hopen ihArguments hclose hlimit
  | number hliteral => exact respellable_constant (.number hliteral)
  | string hliteral => exact respellable_constant (.string hliteral)
  | true_ hword => exact respellable_constant (.true_ hword)
  | false_ hword => exact respellable_constant (.false_ hword)
  | nil_ hword => exact respellable_constant (.nil_ hword)
  | name hname =>
      rintro tree' ⟨pairs, halpha⟩
      cases halpha with
      | «variable» hspelled _ =>
          have hname' := hspelled.ofName hname
          exact ⟨_, .cons hname' .nil, .name (hname'.kind_eq.trans hname)⟩
  | group hopen _ hclose ih =>
      apply ih.framed [_]
      rintro _ ⟨pairs, halpha⟩
      cases halpha with
      | group hinner => exact ⟨_, ⟨_, hinner⟩, fun _ hderives => .group hopen hderives hclose⟩
  | argument _ ih =>
      apply ih.under
      rintro _ ⟨pairs, halpha⟩
      cases halpha with
      | cons hvalue hnothing =>
          cases hnothing
          exact ⟨_, ⟨_, hvalue⟩, fun _ => .argument⟩
  | arguments _ hcomma _ ihValue ihTail => exact respellable_arguments ihValue hcomma ihTail
  | noArguments =>
      rintro values' ⟨pairs, halpha⟩
      cases halpha
      exact ⟨[], .nil, .noArguments⟩
  | someArguments _ ih => exact ih.under fun _ halpha => ⟨_, halpha, fun _ => .someArguments⟩

end Derived

end Scriptlet.Renaming
