import BraceScript.Analysis
import BraceScript.Machine
import BraceScript.Proofs.Grammar

/-! # Scoping — which names a part may use

    `Scoped` says, rule by rule, which parts of a program are well scoped in which scopes, and which
    scopes they leave behind: expressions none but those they find, statements what they declare,
    and blocks of loops and branches what was there before.

    * `Scoped.outer_eq` and `Scoped.le`: the scopes around a part stay, and no symbol is lost;
    * `Grown.known_routine`: where a routine is known, its body is well scoped, in scopes that know
      no more than what is known there and its parameters. -/

namespace BraceScript

/-! ## Symbols of scopes -/

namespace Symbol

/-- Whether a symbol stands for a value. -/
def isValue : Symbol → Bool
  | .function _ | .procedure _ => false
  | _ => true

/-- A symbol that is declared by a program. -/
def IsDeclared : Symbol → Prop
  | .builtIn _ => False
  | _ => True

/-- The routine that a symbol stands for, called as one of a kind. -/
def routine? : RecordKind → Symbol → Option Routine
  | .function, .function f => some f.toRoutine
  | .procedure, .procedure p => some p
  | _, _ => none

/-- A symbol stands for one routine at most, of one kind. -/
theorem routine?_unique {symbol : Symbol} {kind kind' : RecordKind} {r r' : Routine}
    (h : symbol.routine? kind = some r) (h' : symbol.routine? kind' = some r') :
    kind = kind' ∧ r = r' := by
  cases symbol <;> cases kind <;> cases kind' <;> simp_all [routine?]

theorem isDeclared_of_routine {symbol : Symbol} {kind : RecordKind} {r : Routine}
    (h : symbol.routine? kind = some r) : symbol.IsDeclared := by
  cases symbol with
  | builtIn b => cases kind <;> cases h
  | _ => trivial

theorem isValue_of_routine {symbol : Symbol} {kind : RecordKind} {r : Routine}
    (h : symbol.routine? kind = some r) : symbol.isValue = false := by
  cases symbol <;> cases kind <;> first | rfl | exact nomatch h

end Symbol

namespace Scope

theorem find?_define_self (scope : Scope) (symbol : Symbol) :
    (scope.define symbol).find? symbol.name = some symbol :=
  Table.get?_insert_self scope.symbols symbol.name symbol

theorem find?_define_of_ne (scope : Scope) {symbol : Symbol} {name : String}
    (h : symbol.name ≠ name) : (scope.define symbol).find? name = scope.find? name :=
  Table.get?_insert_of_ne scope.symbols symbol h

/-- What a scope has after a definition: the new symbol, or what it had. -/
theorem find?_define {scope : Scope} {symbol found : Symbol} {name : String}
    (h : (scope.define symbol).find? name = some found) :
    (name = symbol.name ∧ found = symbol) ∨ scope.find? name = some found :=
  Table.get?_insert h

/-- A new scope has no declared symbols. -/
theorem find?_make {name : String} {kind : ScopeKind} {level : Int} {key : String}
    {found : Symbol} (h : (make name kind level).find? key = some found) :
    ∃ b ∈ builtIns, found = b ∧ key = b.name := by
  unfold make at h
  split at h
  · simp only [builtIns, List.foldl] at h
    rcases find?_define h with ⟨rfl, rfl⟩ | h
    · exact ⟨_, by simp [builtIns], rfl, rfl⟩
    rcases find?_define h with ⟨rfl, rfl⟩ | h
    · exact ⟨_, by simp [builtIns], rfl, rfl⟩
    rcases find?_define h with ⟨rfl, rfl⟩ | h
    · exact ⟨_, by simp [builtIns], rfl, rfl⟩
    · exact nomatch h
  · exact nomatch h

/-- The scope of a routine has its parameters. -/
theorem find?_foldl_define {parameters : List Parameter} {scope : Scope} {key : String}
    {found : Symbol}
    (h : (parameters.foldl (fun scope p => scope.define (.variable p.name p.type)) scope).find? key
      = some found) :
    (∃ p ∈ parameters, found = .variable p.name p.type ∧ key = p.name) ∨
      scope.find? key = some found := by
  induction parameters generalizing scope with
  | nil => exact .inr h
  | cons p rest ih =>
      rcases ih h with ⟨q, hq, hfound⟩ | h
      · exact .inl ⟨q, List.mem_cons_of_mem _ hq, hfound⟩
      · rcases find?_define h with ⟨rfl, rfl⟩ | h
        · exact .inl ⟨p, List.mem_cons_self, rfl, rfl⟩
        · exact .inr h

theorem make_kind_name (name : String) (kind : ScopeKind) (level : Int) :
    (Scope.make name kind level).kind = kind ∧ (Scope.make name kind level).name = name := by
  unfold Scope.make
  split
  · exact ⟨rfl, rfl⟩
  · exact ⟨rfl, rfl⟩

theorem foldl_define_kind_name (ps : List Parameter) (scope : Scope) :
    (ps.foldl (fun scope p => scope.define (.variable p.name p.type)) scope).kind = scope.kind ∧
      (ps.foldl (fun scope p => scope.define (.variable p.name p.type)) scope).name =
        scope.name := by
  induction ps generalizing scope with
  | nil => exact ⟨rfl, rfl⟩
  | cons p ps ih => exact ih _

end Scope

namespace Scopes

/-- A declared symbol has a name in one of the scopes. -/
def Knows (s : Scopes) (name : String) (symbol : Symbol) : Prop :=
  symbol.IsDeclared ∧ ∃ scope ∈ s.toList, scope.find? name = some symbol

/-- Everything that is declared in some scopes is declared in others. -/
def Le (s s' : Scopes) : Prop := ∀ name symbol, s.Knows name symbol → s'.Knows name symbol

theorem Le.refl (s : Scopes) : s.Le s := fun _ _ h => h

theorem Le.trans {s s' s'' : Scopes} (h : s.Le s') (h' : s'.Le s'') : s.Le s'' :=
  fun name symbol hs => h' name symbol (h name symbol hs)

theorem find_of_findIn {name : String} {symbol : Symbol} {scopes : List Scope}
    (h : findIn name scopes = some symbol) :
    ∃ scope ∈ scopes, scope.find? name = some symbol := by
  induction scopes with
  | nil => exact nomatch h
  | cons scope rest ih =>
      unfold findIn at h
      split at h
      · next hfound =>
          obtain rfl := Option.some.inj h
          exact ⟨scope, List.mem_cons_self, hfound⟩
      · obtain ⟨inner, hinner, hfound⟩ := ih h
        exact ⟨inner, List.mem_cons_of_mem _ hinner, hfound⟩

theorem knows_of_lookup {s : Scopes} {name : String} {symbol : Symbol}
    (h : s.lookup name = some symbol) (hdeclared : symbol.IsDeclared) : s.Knows name symbol :=
  ⟨hdeclared, find_of_findIn h⟩

theorem toList_define (s : Scopes) (symbol : Symbol) :
    (s.define symbol).toList = s.current.define symbol :: s.outer := rfl

theorem knows_define {s : Scopes} {symbol found : Symbol} {name : String}
    (h : (s.define symbol).Knows name found) :
    (name = symbol.name ∧ found = symbol) ∨ s.Knows name found := by
  obtain ⟨hdeclared, scope, hscope, hfound⟩ := h
  rcases List.mem_cons.mp hscope with rfl | hscope
  · rcases Scope.find?_define hfound with hnew | hfound
    · exact .inl hnew
    · exact .inr ⟨hdeclared, s.current, List.mem_cons_self, hfound⟩
  · exact .inr ⟨hdeclared, scope, List.mem_cons_of_mem _ hscope, hfound⟩

theorem le_define {s : Scopes} {symbol : Symbol} (hnew : s.declares symbol.name = false) :
    s.Le (s.define symbol) := by
  rintro name found ⟨hdeclared, scope, hscope, hfound⟩
  rcases List.mem_cons.mp hscope with rfl | hscope
  · refine ⟨hdeclared, _, List.mem_cons_self, ?_⟩
    refine (Scope.find?_define_of_ne s.current ?_).trans hfound
    rintro rfl
    unfold declares at hnew
    rw [hfound] at hnew
    exact nomatch hnew
  · exact ⟨hdeclared, scope, List.mem_cons_of_mem _ hscope, hfound⟩

/-- The scope that is entered has the kind and the name that it is entered with. -/
theorem enter_current (s : Scopes) (name : String) (kind : ScopeKind)
    (ps : List Parameter) :
    (s.enter name kind ps).current.kind = kind ∧ (s.enter name kind ps).current.name = name := by
  obtain ⟨hkind, hname⟩ := Scope.make_kind_name name kind (s.current.level + 1)
  obtain ⟨hkind', hname'⟩ :=
    Scope.foldl_define_kind_name ps (Scope.make name kind (s.current.level + 1))
  exact ⟨hkind'.trans hkind, hname'.trans hname⟩

theorem le_enter (s : Scopes) (name : String) (kind : ScopeKind) (parameters : List Parameter) :
    s.Le (s.enter name kind parameters) := by
  rintro key found ⟨hdeclared, scope, hscope, hfound⟩
  exact ⟨hdeclared, scope, List.mem_cons_of_mem _ hscope, hfound⟩

theorem knows_enter {s : Scopes} {name : String} {kind : ScopeKind} {parameters : List Parameter}
    {key : String} {found : Symbol} (h : (s.enter name kind parameters).Knows key found) :
    (∃ p ∈ parameters, found = .variable p.name p.type ∧ key = p.name) ∨ s.Knows key found := by
  obtain ⟨hdeclared, scope, hscope, hfound⟩ := h
  rcases List.mem_cons.mp hscope with rfl | hscope
  · rcases Scope.find?_foldl_define hfound with hparameter | hfound
    · exact .inl hparameter
    · obtain ⟨b, hb, rfl, -⟩ := Scope.find?_make hfound
      simp only [Scope.builtIns, List.mem_cons, List.not_mem_nil, or_false] at hb
      rcases hb with rfl | rfl | rfl <;> exact absurd hdeclared fun h => h
  · exact .inr ⟨hdeclared, scope, hscope, hfound⟩

/-- Nothing is declared before a program. -/
theorem not_knows_initial {name : String} {symbol : Symbol} :
    ¬ Scopes.initial.Knows name symbol := by
  rintro ⟨hdeclared, scope, hscope, hfound⟩
  obtain rfl := List.mem_singleton.mp hscope
  obtain ⟨b, hb, rfl, -⟩ := Scope.find?_make hfound
  simp only [Scope.builtIns, List.mem_cons, List.not_mem_nil, or_false] at hb
  rcases hb with rfl | rfl | rfl <;> exact absurd hdeclared fun h => h

/-- The scope of a block knows what is known around it. -/
theorem enter_le (s : Scopes) (name : String) (kind : ScopeKind) :
    (s.enter name kind []).Le s := by
  intro key found h
  rcases knows_enter h with ⟨p, hp, -⟩ | h
  · exact nomatch hp
  · exact h

theorem leave_of_outer {s inner : Scopes} (h : inner.outer = s.toList) : inner.leave = s := by
  unfold leave
  rw [h]
  rfl

/-- Something holds of every routine that scopes know. -/
abbrev EachRoutine (P : RecordKind → String → Routine → Prop) (s : Scopes) : Prop :=
  ∀ kind name symbol r, s.Knows name symbol → symbol.routine? kind = some r → P kind name r

namespace EachRoutine

variable {P : RecordKind → String → Routine → Prop} {s t : Scopes}

theorem initial : Scopes.initial.EachRoutine P :=
  fun _ _ _ _ hknows _ => absurd hknows not_knows_initial

theorem le (h : s.EachRoutine P) (hle : t.Le s) : t.EachRoutine P :=
  fun kind name symbol r hknows hr => h kind name symbol r (hle name symbol hknows) hr

/-- Variables and constants are no routines. -/
theorem define (h : s.EachRoutine P) (what : Declared) (name type : String) :
    (s.define (what.symbol name type)).EachRoutine P := by
  intro kind key symbol r hknows hr
  rcases knows_define hknows with ⟨-, rfl⟩ | hknows
  · cases what <;> cases kind <;> cases hr
  · exact h kind key symbol r hknows hr

/-- Parameters are no routines. -/
theorem enter (h : s.EachRoutine P) (label : String) (scopeKind : ScopeKind)
    (ps : List Parameter) : (s.enter label scopeKind ps).EachRoutine P := by
  intro kind key symbol r hknows hr
  rcases knows_enter hknows with ⟨p, -, rfl, -⟩ | hknows
  · cases kind <;> cases hr
  · exact h kind key symbol r hknows hr

theorem routine (h : s.EachRoutine P) {kind : RecordKind} {symbol : Symbol} {r : Routine}
    (hr : symbol.routine? kind = some r) (hnew : P kind symbol.name r) :
    (s.define symbol).EachRoutine P := by
  intro kind' key found r' hknows hr'
  rcases knows_define hknows with ⟨rfl, rfl⟩ | hknows
  · obtain ⟨rfl, rfl⟩ := Symbol.routine?_unique hr hr'
    exact hnew
  · exact h kind' key found r' hknows hr'

end EachRoutine

/-- A word stands only for what is declared: the names of the built-in types are no words. -/
def DeclareWords (s : Scopes) : Prop :=
  ∀ scope ∈ s.toList, ∀ name symbol, scope.find? name = some symbol → IsWord name →
    symbol.IsDeclared

namespace DeclareWords

variable {s : Scopes}

theorem make {label : String} {kind : ScopeKind} {level : Int} {name : String} {symbol : Symbol}
    (hfound : (Scope.make label kind level).find? name = some symbol) : ¬ IsWord name := by
  obtain ⟨b, hb, -, rfl⟩ := Scope.find?_make hfound
  have hwords : ∀ symbol ∈ Scope.builtIns, ¬ IsWord symbol.name := by decide
  exact hwords b hb

theorem initial : Scopes.initial.DeclareWords := by
  intro scope hscope name symbol hfound hword
  obtain rfl := List.mem_singleton.mp hscope
  exact absurd hword (make hfound)

theorem define (h : s.DeclareWords) {symbol : Symbol} (hsymbol : symbol.IsDeclared) :
    (s.define symbol).DeclareWords := by
  intro scope hscope name found hfound hword
  rcases List.mem_cons.mp hscope with rfl | hscope
  · rcases Scope.find?_define hfound with ⟨-, rfl⟩ | hfound
    · exact hsymbol
    · exact h _ List.mem_cons_self name found hfound hword
  · exact h scope (List.mem_cons_of_mem _ hscope) name found hfound hword

theorem enter (h : s.DeclareWords) (label : String) (kind : ScopeKind) (ps : List Parameter) :
    (s.enter label kind ps).DeclareWords := by
  intro scope hscope name found hfound hword
  rcases List.mem_cons.mp hscope with rfl | hscope
  · rcases Scope.find?_foldl_define hfound with ⟨p, -, rfl, -⟩ | hfound
    · exact trivial
    · exact absurd hword (make hfound)
  · exact h scope hscope name found hfound hword

theorem knows (h : s.DeclareWords) {name : String} {symbol : Symbol}
    (hfound : s.lookup name = some symbol) (hword : IsWord name) : s.Knows name symbol := by
  obtain ⟨scope, hscope, hscopeFound⟩ := find_of_findIn hfound
  exact ⟨h scope hscope name symbol hscopeFound hword, scope, hscope, hscopeFound⟩

end DeclareWords

end Scopes

/-! ## Well-scoped parts -/

/-- The symbol of a declared function. -/
abbrev functionSymbol (name type : String) (ps : List Parameter) (body : Node) : Symbol :=
  .function ⟨⟨name, Analysis.someUnlessEmpty ps, body⟩, type⟩

/-- The symbol of a declared procedure. -/
abbrev procedureSymbol (name : String) (ps : List Parameter) (body : Node) : Symbol :=
  .procedure ⟨name, Analysis.someUnlessEmpty ps, body⟩

/-- A part is well scoped in scopes and leaves scopes behind; the symbols of names that are read
    have to fit. -/
inductive Scoped (fits : Symbol → Bool) : Category → Scopes → Node → Scopes → Prop
  | identifier {s : Scopes} {name : String} {symbol : Symbol} (hword : IsWord name)
      (hfound : s.lookup name = some symbol) (hfits : fits symbol = true) :
      Scoped fits .expression s (.identifier name) s
  | number {s : Scopes} (lexeme : String) : Scoped fits .expression s (.number lexeme) s
  | string {s : Scopes} (lexeme : String) : Scoped fits .expression s (.string lexeme) s
  | boolean {s : Scopes} (lexeme : String) : Scoped fits .expression s (.boolean lexeme) s
  | functionCall {s : Scopes} {name : String} {f : Function} {arguments : List Node}
      (hfound : s.lookup name = some (.function f))
      (hcount : (f.parameters.getD []).length = arguments.length)
      (harguments : ∀ a ∈ arguments, Scoped fits .expression s a s) :
      Scoped fits .expression s (.functionCall (.identifier name) arguments) s
  | binary {s : Scopes} {left right : Node} (operator : String)
      (hleft : Scoped fits .expression s left s) (hright : Scoped fits .expression s right s) :
      Scoped fits .expression s (.binary left operator right) s
  | unary {s : Scopes} {operand : Node} (operator : String)
      (hoperand : Scoped fits .expression s operand s) :
      Scoped fits .expression s (.unary operator operand) s
  | logical {s : Scopes} {left right : Node} (operator : String)
      (hleft : Scoped fits .expression s left s) (hright : Scoped fits .expression s right s) :
      Scoped fits .expression s (.logical left operator right) s
  | negation {s : Scopes} {operand : Node} (operator : String)
      (hoperand : Scoped fits .expression s operand s) :
      Scoped fits .expression s (.negation operator operand) s
  | comparison {s : Scopes} {left right : Node} (comparator : String)
      (hleft : Scoped fits .expression s left s) (hright : Scoped fits .expression s right s) :
      Scoped fits .expression s (.comparison left comparator right) s
  | truth {s : Scopes} {expression : Node} (h : Scoped fits .expression s expression s) :
      Scoped fits .expression s (.truth expression) s
  | absent {s : Scopes} : Scoped fits .optional s .absent s
  | present {s : Scopes} {node : Node} (h : Scoped fits .expression s node s) :
      Scoped fits .optional s node s
  | noVariables {s : Scopes} {type : String} :
      Scoped fits .statement s (.variableDecl (.typeName type) [] []) s
  | defaultVariable {s s' : Scopes} {type name : String} {names : List Node}
      (hnew : s.declares name = false)
      (hrest : Scoped fits .statement (s.define (.variable name type))
        (.variableDecl (.typeName type) names []) s') :
      Scoped fits .statement s (.variableDecl (.typeName type) (.identifier name :: names) []) s'
  | setVariable {s s' : Scopes} {type name : String} {value : Node} {names values : List Node}
      (hnew : s.declares name = false)
      (hvalue : Scoped fits .expression (s.define (.variable name type)) value
        (s.define (.variable name type)))
      (hrest : Scoped fits .statement (s.define (.variable name type))
        (.variableDecl (.typeName type) names values) s') :
      Scoped fits .statement s
        (.variableDecl (.typeName type) (.identifier name :: names) (value :: values)) s'
  | noConstants {s : Scopes} {type : String} :
      Scoped fits .statement s (.constantDecl (.typeName type) [] []) s
  | setConstant {s s' : Scopes} {type name : String} {value : Node} {names values : List Node}
      (hnew : s.declares name = false)
      (hvalue : Scoped fits .expression (s.define (.constant name type)) value
        (s.define (.constant name type)))
      (hrest : Scoped fits .statement (s.define (.constant name type))
        (.constantDecl (.typeName type) names values) s') :
      Scoped fits .statement s
        (.constantDecl (.typeName type) (.identifier name :: names) (value :: values)) s'
  | assignment {s : Scopes} {name : String} {value : Node}
      (hvalue : Scoped fits .expression s value s) :
      Scoped fits .statement s (.assignment (.identifier name) value) s
  | give {s : Scopes} {value : Node} (h : Scoped fits .optional s value s) :
      Scoped fits .statement s (.give value) s
  | display {s : Scopes} {value : Node} (h : Scoped fits .expression s value s) :
      Scoped fits .statement s (.display value) s
  | functionDecl {s s' : Scopes} {name type : String} {parameters : List Node}
      {ps : List Parameter} {body : Node} (hnew : s.declares name = false)
      (hps : Parameter.ofNodes parameters = .ok ps)
      (hbody : Scoped fits .block
        ((s.define (functionSymbol name type ps body)).enter name .function ps) body s') :
      Scoped fits .statement s (.functionDecl (.identifier name) parameters (.typeName type) body)
        (s.define (functionSymbol name type ps body))
  | procedureDecl {s s' : Scopes} {name : String} {parameters : List Node}
      {ps : List Parameter} {body : Node} (hnew : s.declares name = false)
      (hps : Parameter.ofNodes parameters = .ok ps)
      (hbody : Scoped fits .block
        ((s.define (procedureSymbol name ps body)).enter name .procedure ps) body s') :
      Scoped fits .statement s (.procedureDecl (.identifier name) parameters body)
        (s.define (procedureSymbol name ps body))
  | procedureCall {s : Scopes} {name : String} {p : Routine} {arguments : List Node}
      (hfound : s.lookup name = some (.procedure p))
      (hcount : (p.parameters.getD []).length = arguments.length)
      (harguments : ∀ a ∈ arguments, Scoped fits .expression s a s) :
      Scoped fits .statement s (.procedureCall (.identifier name) arguments) s
  | ifElse {s s' : Scopes} {label : String} {condition body alternative : Node}
      {elifs : List Node} (hcondition : Scoped fits .expression s condition s)
      (hbody : Scoped fits .block (s.enter label .ifBlock []) body s')
      (helifs : ∀ e ∈ elifs, Scoped fits .elif s e s)
      (halternative : Scoped fits .alternative s alternative s) :
      Scoped fits .statement s (.ifElse condition body elifs alternative) s
  | elif {s s' : Scopes} {label : String} {condition body : Node}
      (hcondition : Scoped fits .expression s condition s)
      (hbody : Scoped fits .block (s.enter label .elifBlock []) body s') :
      Scoped fits .elif s (.elif condition body) s
  | noAlternative {s : Scopes} : Scoped fits .alternative s .absent s
  | otherwise {s s' : Scopes} {label : String} {body : Node}
      (hbody : Scoped fits .block (s.enter label .elseBlock []) body s') :
      Scoped fits .alternative s (.otherwise body) s
  | whileLoop {s s' : Scopes} {label : String} {condition body : Node}
      (hcondition : Scoped fits .expression s condition s)
      (hbody : Scoped fits .block (s.enter label .whileBlock []) body s') :
      Scoped fits .statement s (.whileLoop condition body) s
  | forLoop {s s' : Scopes} {label name : String} {value termination step body : Node}
      (htermination : Scoped fits .expression s termination s)
      (hstep : Scoped fits .optional s step s)
      (hvalue : Scoped fits .expression (s.enter label .forBlock []) value
        (s.enter label .forBlock []))
      (hbody : Scoped fits .block (s.enter label .forBlock []) body s') :
      Scoped fits .statement s
        (.forLoop (.assignment (.identifier name) value) termination step body) s
  | skip {s : Scopes} (h : (s.toList.any fun scope => scope.kind = .whileBlock) = true) :
      Scoped fits .statement s .skip s
  | stop {s : Scopes} (h : (s.toList.any fun scope => scope.kind = .whileBlock) = true) :
      Scoped fits .statement s .stop s
  | blockEnd {s : Scopes} : Scoped fits .block s (.block []) s
  | blockStep {s s' s'' : Scopes} {first : Node} {rest : List Node}
      (hfirst : Scoped fits .statement s first s')
      (hrest : Scoped fits .block s' (.block rest) s'') :
      Scoped fits .block s (.block (first :: rest)) s''

namespace Scoped

variable {fits : Symbol → Bool} {c : Category} {s s' : Scopes} {node : Node}

theorem expression_eq (h : Scoped fits .expression s node s') : s' = s := by
  cases h <;> rfl

theorem optional_eq (h : Scoped fits .optional s node s') : s' = s := by
  cases h <;> rfl

theorem elif_eq (h : Scoped fits .elif s node s') : s' = s := by
  cases h
  rfl

theorem alternative_eq (h : Scoped fits .alternative s node s') : s' = s := by
  cases h <;> rfl

/-- Declarations change the current scope only, and not its kind. -/
theorem outer_eq (h : Scoped fits c s node s') :
    s'.outer = s.outer ∧ s'.current.kind = s.current.kind := by
  induction h with
  | defaultVariable _ _ ih => exact ih
  | setVariable _ _ _ _ ih => exact ih
  | setConstant _ _ _ _ ih => exact ih
  | blockStep _ _ ihfirst ihrest =>
      exact ⟨ihrest.1.trans ihfirst.1, ihrest.2.trans ihfirst.2⟩
  | _ => exact ⟨rfl, rfl⟩

/-- No symbol is lost. -/
theorem le (h : Scoped fits c s node s') : s.Le s' := by
  induction h with
  | defaultVariable hnew _ ih => exact (Scopes.le_define hnew).trans ih
  | setVariable hnew _ _ _ ih => exact (Scopes.le_define hnew).trans ih
  | setConstant hnew _ _ _ ih => exact (Scopes.le_define hnew).trans ih
  | functionDecl hnew _ _ _ => exact Scopes.le_define hnew
  | procedureDecl hnew _ _ _ => exact Scopes.le_define hnew
  | blockStep _ _ ihfirst ihrest => exact ihfirst.trans ihrest
  | _ => exact Scopes.Le.refl _

/-- A block that was entered is left for the scopes around it. -/
theorem leave_eq {name : String} {kind : ScopeKind} {ps : List Parameter}
    (h : Scoped fits c (s.enter name kind ps) node s') : s'.leave = s :=
  Scopes.leave_of_outer h.outer_eq.1

/-- What is well scoped as an expression is one. -/
theorem isExpression (h : Scoped fits .expression s node s') : node.IsExpression := by
  generalize hc : Category.expression = c at h
  induction h with
  | identifier _ _ _ => exact .identifier trivial
  | number lexeme => exact .number lexeme
  | string lexeme => exact .string lexeme
  | boolean lexeme => exact .boolean lexeme
  | functionCall _ _ _ ih => exact .functionCall (.name trivial) fun a ha => ih a ha rfl
  | binary operator _ _ ihleft ihright => exact .binary operator (ihleft rfl) (ihright rfl)
  | unary operator _ ih => exact .unary operator (ih rfl)
  | logical operator _ _ ihleft ihright => exact .logical operator (ihleft rfl) (ihright rfl)
  | negation operator _ ih => exact .negation operator (ih rfl)
  | comparison comparator _ _ ihleft ihright =>
      exact .comparison comparator (ihleft rfl) (ihright rfl)
  | truth _ ih => exact .truth (ih rfl)
  | _ => exact nomatch hc

/-- The operands of an expression are well scoped where it is. -/
theorem operand {part : Node} (h : Scoped fits .expression s node s')
    (hpart : part ∈ node.operands) : Scoped fits .expression s part s := by
  cases h with
  | binary _ hleft hright | logical _ hleft hright | comparison _ hleft hright =>
      simp only [Node.operands, List.mem_cons, List.not_mem_nil, or_false] at hpart
      rcases hpart with rfl | rfl
      · exact hleft
      · exact hright
  | unary _ h | negation _ h | truth h =>
      obtain rfl := List.mem_singleton.mp hpart
      exact h
  | _ => exact absurd hpart List.not_mem_nil

end Scoped

/-! ## Scopes that programs come to -/

theorem getD_someUnlessEmpty (ps : List Parameter) :
    (Analysis.someUnlessEmpty ps).getD [] = ps := by
  cases ps <;> rfl

/-- Scopes that arise by opening scopes and declaring names; what is declared as a routine has a
    well-scoped body. -/
inductive Grown (fits : Symbol → Bool) : Scopes → Prop
  | initial : Grown fits Scopes.initial
  | enter {s : Scopes} (h : Grown fits s) (label : String) (kind : ScopeKind)
      (ps : List Parameter) : Grown fits (s.enter label kind ps)
  | name {s : Scopes} (h : Grown fits s) (what : Declared) {name : String} (type : String)
      (hnew : s.declares name = false) : Grown fits (s.define (what.symbol name type))
  | routine {s s' : Scopes} {symbol : Symbol} {r : Routine} (h : Grown fits s)
      (hnew : s.declares symbol.name = false) (kind : RecordKind)
      (hr : symbol.routine? kind = some r) {ps : List Parameter}
      (hps : r.parameters.getD [] = ps) (label : String) (scopeKind : ScopeKind)
      (hbody : Scoped fits .block ((s.define symbol).enter label scopeKind ps) r.body s') :
      Grown fits (s.define symbol)

namespace Grown

variable {fits : Symbol → Bool} {s s' : Scopes}

theorem function (h : Grown fits s) {name type : String} {ps : List Parameter} {body : Node}
    (hnew : s.declares name = false)
    (hbody : Scoped fits .block
      ((s.define (functionSymbol name type ps body)).enter name .function ps) body s') :
    Grown fits (s.define (functionSymbol name type ps body)) :=
  .routine h hnew .function rfl (getD_someUnlessEmpty ps) name .function hbody

theorem procedure (h : Grown fits s) {name : String} {ps : List Parameter} {body : Node}
    (hnew : s.declares name = false)
    (hbody : Scoped fits .block
      ((s.define (procedureSymbol name ps body)).enter name .procedure ps) body s') :
    Grown fits (s.define (procedureSymbol name ps body)) :=
  .routine h hnew .procedure rfl (getD_someUnlessEmpty ps) name .procedure hbody

/-- A part leaves scopes behind that programs come to. -/
theorem behind {c : Category} {node : Node} (h : Grown fits s) (hnode : Scoped fits c s node s') :
    Grown fits s' := by
  induction hnode with
  | defaultVariable hnew _ ih => exact ih (h.name .variable _ hnew)
  | setVariable hnew _ _ _ ih => exact ih (h.name .variable _ hnew)
  | setConstant hnew _ _ _ ih => exact ih (h.name .constant _ hnew)
  | functionDecl hnew _ hbody _ => exact h.function hnew hbody
  | procedureDecl hnew _ hbody _ => exact h.procedure hnew hbody
  | blockStep _ _ ihfirst ihrest => exact ihrest (ihfirst h)
  | _ => exact h

/-- Where a routine is known, its body is well scoped, in scopes that know no more than what is
    known there and its parameters. -/
theorem known_routine (h : Grown fits s) {kind : RecordKind} {name : String} {symbol : Symbol}
    {r : Routine} (hknows : s.Knows name symbol) (hr : symbol.routine? kind = some r) :
    ∃ home label scopeKind behind, Grown fits home ∧ home.Le s ∧
      Scoped fits .block (home.enter label scopeKind (r.parameters.getD [])) r.body behind := by
  induction h with
  | initial => exact absurd hknows Scopes.not_knows_initial
  | @enter s h label scopeKind ps ih =>
      rcases Scopes.knows_enter hknows with ⟨p, -, rfl, -⟩ | hknows
      · cases kind <;> exact nomatch hr
      · obtain ⟨home, label', scopeKind', behind, hgrown, hle, hbody⟩ := ih hknows
        exact ⟨home, label', scopeKind', behind, hgrown,
          hle.trans (s.le_enter label scopeKind ps), hbody⟩
  | @name s h what name type hnew ih =>
      rcases Scopes.knows_define hknows with ⟨-, rfl⟩ | hknows
      · cases what <;> cases kind <;> exact nomatch hr
      · obtain ⟨home, label, scopeKind, behind, hgrown, hle, hbody⟩ := ih hknows
        refine ⟨home, label, scopeKind, behind, hgrown, hle.trans (Scopes.le_define ?_), hbody⟩
        cases what <;> exact hnew
  | @routine s s' symbol' r' h hnew kind' hr' ps hps label scopeKind hbody ih =>
      rcases Scopes.knows_define hknows with ⟨-, rfl⟩ | hknows
      · obtain ⟨-, rfl⟩ := Symbol.routine?_unique hr' hr
        subst hps
        exact ⟨_, label, scopeKind, s', .routine h hnew kind' hr' rfl label scopeKind hbody,
          Scopes.Le.refl _, hbody⟩
      · obtain ⟨home, label', scopeKind', behind, hgrown, hle, hbody'⟩ := ih hknows
        exact ⟨home, label', scopeKind', behind, hgrown, hle.trans (Scopes.le_define hnew), hbody'⟩

theorem declareWords (h : Grown fits s) : s.DeclareWords := by
  induction h with
  | initial => exact .initial
  | enter h label kind ps ih => exact ih.enter label kind ps
  | name h what type hnew ih => exact ih.define (by cases what <;> exact trivial)
  | routine h hnew kind hr hps label scopeKind hbody ih =>
      exact ih.define (Symbol.isDeclared_of_routine hr)

end Grown

end BraceScript
