import Mathlib
import BraceScript.Proofs.Phases

/-! # Lawfulness — the rules of declaration and use, place by place

    The analysis walks a program and keeps scopes up to date.  The rules that it enforces need no
    walking: every part of a program has the blocks around it and what is declared in them before
    it, and each rule speaks of one part at such a site.

    * `Site.parts`: the sites of the parts of a part;
    * `Site.Obeys`: what the rules ask of the part at a site;
    * `Node.Lawful`: every part of a program obeys the rules;
    * `accepted_iff_lawful`: the analysis accepts exactly the lawful programs. -/

namespace BraceScript

/-! ## Sites -/

/-- What a name is declared as; a routine is declared with the number of its parameters. -/
inductive Role where
  | variable
  | constant
  | function (arity : Nat)
  | procedure (arity : Nat)
  deriving DecidableEq, Repr

/-- A name with what it is declared as. -/
structure Declaration where
  name : String
  role : Role
  deriving DecidableEq, Repr

/-- A block around a part, with what is declared in it before the part, in order.  The parameters of
    a routine are declared at the beginning of its body. -/
structure Enclosure where
  kind : ScopeKind
  declared : List Declaration
  deriving DecidableEq, Repr

/-- A part of a program with the blocks around it, innermost first. -/
structure Site where
  around : List Enclosure
  node : Node

namespace Node

/-- The name that a label or a parameter spells. -/
def spelling : Node → String
  | .identifier name => name
  | .parameter name _ => name.spelling
  | _ => ""

/-- Labels as the names of variables, constants or parameters. -/
def declaredAs (role : Role) (labels : List Node) : List Declaration :=
  labels.map fun label => ⟨label.spelling, role⟩

theorem declaredAs_nil (role : Role) : declaredAs role [] = [] := rfl

theorem declaredAs_cons (role : Role) (label : Node) (labels : List Node) :
    declaredAs role (label :: labels) = [⟨label.spelling, role⟩] ++ declaredAs role labels := rfl

/-- What a statement declares in the block that it stands in, in order. -/
def declarations : Node → List Declaration
  | .variableDecl _ names _ => declaredAs .variable names
  | .constantDecl _ names _ => declaredAs .constant names
  | .functionDecl name parameters _ _ => [⟨name.spelling, .function parameters.length⟩]
  | .procedureDecl name parameters _ => [⟨name.spelling, .procedure parameters.length⟩]
  | _ => []

end Node

/-- The blocks around a part, behind more declarations in the innermost one. -/
def behind (new : List Declaration) : List Enclosure → List Enclosure
  | [] => []
  | e :: outer => ⟨e.kind, e.declared ++ new⟩ :: outer

/-- What a name is declared as in the innermost block that declares it, before the part that these
    blocks are around. -/
def nearest (around : List Enclosure) (name : String) : Option Role :=
  ((around.flatMap Enclosure.declared).find? fun d => d.name = name).map Declaration.role

/-- Names are new in the innermost block, and different from each other. -/
def Fresh (new : List Declaration) (around : List Enclosure) : Prop :=
  (new.map Declaration.name).Nodup ∧
    ∀ e ∈ around.head?, ∀ d ∈ new, ∀ d' ∈ e.declared, d'.name ≠ d.name

@[simp] theorem behind_nil (around : List Enclosure) : behind [] around = around := by
  cases around with
  | nil => rfl
  | cons e outer => simp [behind]

theorem behind_append (first second : List Declaration) (around : List Enclosure) :
    behind (first ++ second) around = behind second (behind first around) := by
  cases around with
  | nil => rfl
  | cons e outer => simp [behind]

/-- Several names are new if each of them is, behind those before it. -/
theorem fresh_cons (d : Declaration) (new : List Declaration) {around : List Enclosure}
    (hne : around ≠ []) :
    Fresh (d :: new) around ↔ Fresh [d] around ∧ Fresh new (behind [d] around) := by
  obtain ⟨e, outer, rfl⟩ := List.exists_cons_of_ne_nil hne
  simp only [Fresh, behind, List.head?_cons, Option.mem_some_iff, forall_eq', List.map_cons,
    List.map_nil, List.nodup_cons, List.mem_map, List.mem_cons, List.mem_append, List.not_mem_nil]
  grind

namespace Site

/-- The sites of the parts of a part.  A statement stands behind what the statements before it
    declare, the value of a name behind that name and the ones before it, and the body of a routine
    behind the name of the routine, with its parameters.  Labels and types are no sites. -/
def parts : Site → List Site
  | ⟨around, .program body⟩ => [⟨⟨.program, []⟩ :: around, body⟩]
  | ⟨around, .block statements⟩ => statements.mapIdx fun i statement =>
      ⟨behind ((statements.take i).flatMap Node.declarations) around, statement⟩
  | ⟨around, .variableDecl _ names values⟩ => values.mapIdx fun i value =>
      ⟨behind (Node.declaredAs .variable (names.take (i + 1))) around, value⟩
  | ⟨around, .constantDecl _ names values⟩ => values.mapIdx fun i value =>
      ⟨behind (Node.declaredAs .constant (names.take (i + 1))) around, value⟩
  | ⟨around, .functionDecl name parameters _ body⟩ =>
      [⟨⟨.function, Node.declaredAs .variable parameters⟩ ::
        behind [⟨name.spelling, .function parameters.length⟩] around, body⟩]
  | ⟨around, .procedureDecl name parameters body⟩ =>
      [⟨⟨.procedure, Node.declaredAs .variable parameters⟩ ::
        behind [⟨name.spelling, .procedure parameters.length⟩] around, body⟩]
  | ⟨around, .assignment _ value⟩ | ⟨around, .give value⟩ | ⟨around, .display value⟩ =>
      [⟨around, value⟩]
  | ⟨around, .functionCall _ arguments⟩ | ⟨around, .procedureCall _ arguments⟩ =>
      arguments.map (⟨around, ·⟩)
  | ⟨around, .ifElse condition body elifs alternative⟩ =>
      ⟨around, condition⟩ :: ⟨⟨.ifBlock, []⟩ :: around, body⟩ ::
        (elifs ++ [alternative]).map (⟨around, ·⟩)
  | ⟨around, .elif condition body⟩ => [⟨around, condition⟩, ⟨⟨.elifBlock, []⟩ :: around, body⟩]
  | ⟨around, .otherwise body⟩ => [⟨⟨.elseBlock, []⟩ :: around, body⟩]
  | ⟨around, .whileLoop condition body⟩ =>
      [⟨around, condition⟩, ⟨⟨.whileBlock, []⟩ :: around, body⟩]
  | ⟨around, .forLoop initial termination step body⟩ =>
      [⟨around, termination⟩, ⟨around, step⟩, ⟨⟨.forBlock, []⟩ :: around, initial⟩,
        ⟨⟨.forBlock, []⟩ :: around, body⟩]
  | ⟨around, .truth operand⟩ | ⟨around, .unary _ operand⟩ | ⟨around, .negation _ operand⟩ =>
      [⟨around, operand⟩]
  | ⟨around, .binary left _ right⟩ | ⟨around, .logical left _ right⟩
  | ⟨around, .comparison left _ right⟩ => [⟨around, left⟩, ⟨around, right⟩]
  | _ => []

/-- What the rules ask of the part at a site. -/
def Obeys : Site → Prop
  -- a block declares a name once, and no parameter of the routine whose body it is
  | ⟨around, .variableDecl type names values⟩ =>
      Fresh (Node.variableDecl type names values).declarations around
  | ⟨around, .constantDecl type names values⟩ =>
      Fresh (Node.constantDecl type names values).declarations around
  | ⟨around, .functionDecl name parameters type body⟩ =>
      Fresh (Node.functionDecl name parameters type body).declarations around
  | ⟨around, .procedureDecl name parameters body⟩ =>
      Fresh (Node.procedureDecl name parameters body).declarations around
  -- a name that is read is declared
  | ⟨around, .identifier name⟩ => ∃ role, nearest around name = some role
  -- what is assigned to, by a for loop too, is a variable or a parameter
  | ⟨around, .assignment target _⟩ => nearest around target.spelling = some .variable
  -- what is called is a routine of the right kind, with as many parameters as there are arguments
  | ⟨around, .functionCall callee arguments⟩ =>
      nearest around callee.spelling = some (.function arguments.length)
  | ⟨around, .procedureCall callee arguments⟩ =>
      nearest around callee.spelling = some (.procedure arguments.length)
  -- the nearest routine around a give is a function if and only if a value is given
  | ⟨around, .give value⟩ => ∃ e, around.find? (fun e => e.kind.isRoutine) = some e ∧
      (value.isAbsent = false ↔ e.kind = .function)
  -- a while loop is around, however far outside
  | ⟨around, .skip⟩ | ⟨around, .stop⟩ => ∃ e ∈ around, e.kind = .whileBlock
  | _ => True

/-- A site is within another one: a part of it, or of one of its parts, and so on. -/
def Within (q p : Site) : Prop := Relation.ReflTransGen (fun p q => q ∈ p.parts) p q

/-- Everything within a site obeys the rules. -/
def Lawful (p : Site) : Prop := ∀ q : Site, q.Within p → q.Obeys

theorem lawful_iff (p : Site) : p.Lawful ↔ p.Obeys ∧ ∀ q ∈ p.parts, q.Lawful := by
  constructor
  · intro h
    exact ⟨h p .refl, fun q hq r hr => h r (.head hq hr)⟩
  · rintro ⟨hp, hparts⟩ q hq
    rcases Relation.ReflTransGen.cases_head hq with rfl | ⟨r, hr, hq⟩
    · exact hp
    · exact hparts r hr q hq

/-- Nothing is asked where a part is left out. -/
theorem lawful_absent (around : List Enclosure) : (Site.mk around .absent).Lawful :=
  (lawful_iff _).mpr ⟨trivial, nofun⟩

end Site

/-- Every part of a program obeys the rules of declaration and use. -/
def Node.Lawful (tree : Node) : Prop := (Site.mk [] tree).Lawful

/-! ## Scopes and the blocks around a part -/

/-- What a symbol is declared as. -/
def Symbol.role : Symbol → Option Role
  | .builtIn _ => none
  | .variable _ _ => some .variable
  | .constant _ _ => some .constant
  | .function f => some (.function (f.parameters.getD []).length)
  | .procedure p => some (.procedure (p.parameters.getD []).length)

/-- What a variable or a constant is declared as. -/
def Declared.role : Declared → Role
  | .constant => .constant
  | _ => .variable

/-- A scope has what is declared in a block. -/
structure Scope.Stands (scope : Scope) (e : Enclosure) : Prop where
  kind : scope.kind = e.kind
  roles : ∀ name, IsWord name → (scope.find? name).map Symbol.role =
    (e.declared.find? fun d => d.name = name).map fun d => some d.role

namespace Scope.Stands

variable {scope : Scope} {e : Enclosure}

theorem make (label : String) (kind : ScopeKind) (level : Int) :
    (Scope.make label kind level).Stands ⟨kind, []⟩ := by
  refine ⟨(Scope.make_kind_name label kind level).1, ?_⟩
  intro name hword
  cases hfound : (Scope.make label kind level).find? name with
  | none => rfl
  | some symbol => exact absurd hword (Scopes.DeclareWords.make hfound)

/-- Among variables, a name may be declared again. -/
theorem parameter (h : scope.Stands e) (hvariables : ∀ d ∈ e.declared, d.role = .variable)
    (p : Parameter) : (scope.define (.variable p.name p.type)).Stands
      ⟨e.kind, e.declared ++ [⟨p.name, .variable⟩]⟩ := by
  refine ⟨h.kind, fun name hword => ?_⟩
  rw [List.find?_append]
  by_cases hname : p.name = name
  · subst hname
    have hself := Scope.find?_define_self scope (.variable p.name p.type)
    rw [show (Symbol.variable p.name p.type).name = p.name from rfl] at hself
    rw [hself]
    cases hfound : e.declared.find? fun d => d.name = p.name with
    | none => simp [Symbol.role]
    | some d =>
        have hd := hvariables d (List.mem_of_find?_eq_some hfound)
        simp [Symbol.role, hd]
  · have hother : (scope.define (.variable p.name p.type)).find? name = scope.find? name :=
      Scope.find?_define_of_ne scope hname
    rw [hother, h.roles name hword]
    simp [hname]

theorem parameters (h : scope.Stands e) (hvariables : ∀ d ∈ e.declared, d.role = .variable)
    (ps : List Parameter) :
    (ps.foldl (fun scope p => scope.define (.variable p.name p.type)) scope).Stands
      ⟨e.kind, e.declared ++ ps.map fun p => ⟨p.name, .variable⟩⟩ := by
  induction ps generalizing scope e with
  | nil => simpa using h
  | cons p ps ih =>
      have hone : ∀ d ∈ e.declared ++ [⟨p.name, .variable⟩], d.role = .variable := by
        intro d hd
        rcases List.mem_append.mp hd with hd | hd
        · exact hvariables d hd
        · rw [List.mem_singleton.mp hd]
      have hrest := ih (h.parameter hvariables p) hone
      simpa using hrest

end Scope.Stands

/-- Scopes are those of the blocks around a part, and the name of the scope of a routine is that of
    the routine, outside. -/
inductive Stand : List Scope → List Enclosure → Prop
  | nil : Stand [] []
  | cons {scope : Scope} {e : Enclosure} {outer : List Scope} {around : List Enclosure}
      (hscope : scope.Stands e)
      (hfunction : scope.kind = .function →
        ∃ f, Scopes.findIn scope.name outer = some (.function f))
      (hprocedure : scope.kind = .procedure →
        ∃ p, Scopes.findIn scope.name outer = some (.procedure p))
      (houter : Stand outer around) : Stand (scope :: outer) (e :: around)

namespace Stand

variable {scopes : List Scope} {around : List Enclosure} {s : Scopes} {name : String}

/-- A name means what it is declared as nearest. -/
theorem nearest_eq (h : Stand scopes around) (hword : IsWord name) :
    (Scopes.findIn name scopes).map Symbol.role = (nearest around name).map some := by
  induction h with
  | nil => rfl
  | @cons scope e outer around hscope _ _ _ ih =>
      have hroles := hscope.roles name hword
      unfold Scopes.findIn
      simp only [nearest, List.flatMap_cons, List.find?_append] at ih ⊢
      cases hfound : scope.find? name with
      | some symbol =>
          rw [hfound] at hroles
          obtain ⟨d, hd, hrole⟩ := Option.map_eq_some_iff.mp hroles.symm
          simp [hd, ← hrole]
      | none =>
          rw [hfound] at hroles
          have hd := Option.map_eq_none_iff.mp hroles.symm
          simpa [hd] using ih

/-- What a name means, and what it is declared as nearest. -/
theorem nearest_iff (h : Stand scopes around) (hword : IsWord name) (role : Role) :
    nearest around name = some role ↔
      ∃ symbol, Scopes.findIn name scopes = some symbol ∧ symbol.role = some role := by
  have heq := h.nearest_eq hword
  constructor
  · intro hnearest
    rw [hnearest] at heq
    exact Option.map_eq_some_iff.mp heq
  · rintro ⟨symbol, hfound, hrole⟩
    rw [hfound, Option.map_some, hrole] at heq
    obtain ⟨role', hnearest, hrole'⟩ := Option.map_eq_some_iff.mp heq.symm
    rw [hnearest, Option.some.inj hrole']

/-- A name that a scope has not is not declared in its block. -/
theorem declares_iff (h : Stand s.toList around) (hword : IsWord name) :
    s.declares name = false ↔ ∀ e ∈ around.head?, ∀ d ∈ e.declared, d.name ≠ name := by
  cases h with
  | @cons _ e _ around hscope _ _ _ =>
      have hroles := hscope.roles name hword
      have hnone : s.current.find? name = none ↔
          (e.declared.find? fun d => d.name = name) = none := by
        rw [← Option.map_eq_none_iff (f := Symbol.role), hroles, Option.map_eq_none_iff]
      unfold Scopes.declares
      rw [Option.isSome_eq_false_iff, Option.isNone_iff_eq_none, hnone, List.find?_eq_none]
      simp

theorem insideWhile_iff (h : Stand scopes around) :
    (scopes.any fun scope => scope.kind = .whileBlock) = true ↔
      ∃ e ∈ around, e.kind = .whileBlock := by
  induction h with
  | nil => simp
  | cons hscope _ _ _ ih =>
      rw [List.any_cons, Bool.or_eq_true, ih, hscope.kind]
      simp

/-- The nearest scope of a routine is that of the nearest routine, and its name means a function or
    a procedure outside, as its kind is. -/
theorem routine_iff (h : Stand scopes around) (value : Node) :
    (∃ e, around.find? (fun e => e.kind.isRoutine) = some e ∧
      (value.isAbsent = false ↔ e.kind = .function)) ↔
    ∃ scope outer symbol, Analysis.routineScope scopes = some (scope, outer) ∧
      Scopes.findIn scope.name outer = some symbol ∧
      ((∃ f, symbol = .function f) ∧ value.isAbsent = false ∨
        (∃ p, symbol = .procedure p) ∧ value.isAbsent = true) := by
  induction h with
  | nil => simp [Analysis.routineScope]
  | @cons scope e outer around hscope hfunction hprocedure houter ih =>
      rw [Analysis.routineScope, List.find?_cons, hscope.kind]
      cases hkind : e.kind.isRoutine with
      | false => simpa using ih
      | true =>
          rw [hscope.kind] at hfunction hprocedure
          have hkinds : e.kind = .function ∨ e.kind = .procedure := by
            cases he : e.kind <;> simp_all [ScopeKind.isRoutine]
          have hgive : (value.isAbsent = false ↔ e.kind = .function) ↔
              ∃ symbol, Scopes.findIn scope.name outer = some symbol ∧
                ((∃ f, symbol = .function f) ∧ value.isAbsent = false ∨
                  (∃ p, symbol = .procedure p) ∧ value.isAbsent = true) := by
            rcases hkinds with hkind | hkind
            · obtain ⟨f, hf⟩ := hfunction hkind
              simp [hkind, hf]
            · obtain ⟨p, hp⟩ := hprocedure hkind
              simp [hkind, hp]
          constructor
          · rintro ⟨_, ⟨⟩, hvalue⟩
            exact ⟨scope, outer, (hgive.mp hvalue).imp fun _ hsymbol => ⟨rfl, hsymbol⟩⟩
          · rintro ⟨_, _, symbol, ⟨⟩, hsymbol⟩
            exact ⟨e, rfl, hgive.mpr ⟨symbol, hsymbol⟩⟩

/-- A scope behind a declaration of a name that it did not have. -/
theorem define (h : Stand s.toList around) {symbol : Symbol} {role : Role}
    (hnew : s.declares symbol.name = false) (hrole : symbol.role = some role) :
    Stand (s.define symbol).toList (behind [⟨symbol.name, role⟩] around) := by
  cases h with
  | @cons _ e _ around hscope hfunction hprocedure houter =>
      refine .cons ⟨hscope.kind, ?_⟩ hfunction hprocedure houter
      intro name hword
      have hroles := hscope.roles name hword
      show ((s.current.define symbol).find? name).map Symbol.role = _
      rw [List.find?_append]
      by_cases hname : symbol.name = name
      · subst hname
        have hnone : s.current.find? symbol.name = none :=
          Option.isSome_eq_false_iff.mp hnew |> Option.isNone_iff_eq_none.mp
        rw [hnone] at hroles
        have hd := Option.map_eq_none_iff.mp hroles.symm
        simp [Scope.find?_define_self, hd, hrole]
      · rw [Scope.find?_define_of_ne _ hname, hroles]
        simp [hname]

/-- The scope of a block that is no body of a routine. -/
theorem block (h : Stand s.toList around) (label : String) {kind : ScopeKind}
    (hkind : kind.isRoutine = false) :
    Stand (s.enter label kind []).toList (⟨kind, []⟩ :: around) := by
  obtain ⟨hentered, -⟩ := s.enter_current label kind []
  refine .cons (.make label kind _) ?_ ?_ h
  · intro hfunction
    rw [← hentered, hfunction] at hkind
    cases hkind
  · intro hprocedure
    rw [← hentered, hprocedure] at hkind
    cases hkind

/-- The scope of the body of a routine that is declared just before. -/
theorem body (h : Stand s.toList around) {symbol : Symbol} {role : Role} {kind : ScopeKind}
    (hnew : s.declares symbol.name = false) (hrole : symbol.role = some role)
    (hkind : (∃ f, kind = .function ∧ symbol = .function f) ∨
      ∃ p, kind = .procedure ∧ symbol = .procedure p) (ps : List Parameter) :
    Stand ((s.define symbol).enter symbol.name kind ps).toList
      (⟨kind, ps.map fun p => ⟨p.name, .variable⟩⟩ :: behind [⟨symbol.name, role⟩] around) := by
  obtain ⟨hentered, hname⟩ := (s.define symbol).enter_current symbol.name kind ps
  have hempty : (Scope.make symbol.name kind ((s.define symbol).current.level + 1)).Stands
      ⟨kind, []⟩ := .make _ _ _
  have hfound : Scopes.findIn symbol.name ((s.define symbol).enter symbol.name kind ps).outer =
      some symbol := by
    show Scopes.findIn symbol.name (s.define symbol).toList = _
    rw [Scopes.toList_define, Scopes.findIn, Scope.find?_define_self]
  refine .cons (hempty.parameters nofun ps) ?_ ?_ (h.define hnew hrole)
  · intro hfunction
    rw [hname, hfound]
    rcases hkind with ⟨f, -, rfl⟩ | ⟨p, rfl, -⟩
    · exact ⟨f, rfl⟩
    · exact nomatch hentered.symm.trans hfunction
  · intro hprocedure
    rw [hname, hfound]
    rcases hkind with ⟨f, rfl, -⟩ | ⟨p, -, rfl⟩
    · exact nomatch hentered.symm.trans hprocedure
    · exact ⟨p, rfl⟩

/-- A scope is left for those around it. -/
theorem leave {e : Enclosure} (h : Stand s.toList (e :: around)) (hne : around ≠ []) :
    Stand s.leave.toList around := by
  obtain ⟨current, outer⟩ := s
  cases h with
  | cons _ _ _ houter =>
      cases houter with
      | nil => exact absurd rfl hne
      | cons hscope hfunction hprocedure houter =>
          exact .cons hscope hfunction hprocedure houter

theorem ne_nil (h : Stand s.toList around) : around ≠ [] := by
  cases h with
  | cons _ _ _ _ => exact List.cons_ne_nil _ _

end Stand

/-! ## The analysis and the rules -/

namespace Analysis

variable {around after last : List Enclosure} {P Q : Prop} {x y : Analysis Unit}

/-- An analysis passes. -/
def Passes (x : Analysis Unit) (s : Scopes) : Prop := ∃ u s', x s = .ok u s'

/-- In the scopes of the blocks around a part an analysis passes if and only if something holds of
    them, and leaves the scopes behind some declarations. -/
def Tells (x : Analysis Unit) (around : List Enclosure) (P : Prop) (after : List Enclosure) :
    Prop :=
  ∀ s : Scopes, Stand s.toList around →
    (Passes x s ↔ P) ∧ ∀ u s', x s = .ok u s' → Stand s'.toList after

namespace Tells

theorem pure (around : List Enclosure) : Tells (Pure.pure ()) around True around := by
  intro s hs
  refine ⟨⟨fun _ => trivial, fun _ => ⟨(), s, rfl⟩⟩, ?_⟩
  intro u s' h
  cases h
  exact hs

theorem bind (hx : Tells x around P after) (hy : Tells y after Q last) :
    Tells (do x; y) around (P ∧ Q) last := by
  intro s hs
  obtain ⟨hxs, hafter⟩ := hx s hs
  refine ⟨⟨?_, ?_⟩, ?_⟩
  · rintro ⟨u, s', h⟩
    obtain ⟨_, mid, hmid, hrest⟩ := bind_ok h
    exact ⟨hxs.mp ⟨_, mid, hmid⟩, (hy mid (hafter _ mid hmid)).1.mp ⟨u, s', hrest⟩⟩
  · rintro ⟨hP, hQ⟩
    obtain ⟨_, mid, hmid⟩ := hxs.mpr hP
    obtain ⟨u, s', hrest⟩ := (hy mid (hafter _ mid hmid)).1.mpr hQ
    refine ⟨u, s', ?_⟩
    show EStateM.bind x (fun _ => y) s = _
    unfold EStateM.bind
    rw [hmid]
    exact hrest
  · intro u s' h
    obtain ⟨_, mid, hmid, hrest⟩ := bind_ok h
    exact (hy mid (hafter _ mid hmid)).2 u s' hrest

theorem congr (h : Tells x around P after) (hiff : P ↔ Q) : Tells x around Q after := by
  intro s hs
  obtain ⟨hpasses, hafter⟩ := h s hs
  exact ⟨hpasses.trans hiff, hafter⟩

theorem append {fits : Symbol → Bool} {first second : List Phase}
    (hfirst : Tells (runAll fits first) around P after)
    (hsecond : Tells (runAll fits second) after Q last) :
    Tells (runAll fits (first ++ second)) around (P ∧ Q) last := by
  rw [runAll_append]
  exact hfirst.bind hsecond

/-- What is told of blocks around a part is told where there are some. -/
theorem of_cons (h : around ≠ [] → Tells x around P after) : Tells x around P after :=
  fun s hs => h hs.ne_nil s hs

/-- A test passes where something holds of the scopes, and leaves them as they are. -/
theorem test {fits : Symbol → Bool} {t : Test}
    (hiff : ∀ s : Scopes, Stand s.toList around → (Passes (t.check fits) s ↔ P)) :
    Tells ((Phase.test t).run fits) around P around := by
  intro s hs
  refine ⟨hiff s hs, ?_⟩
  intro u s' h
  have hsame : s' = s := Test.check_ok (show t.check fits s = .ok u s' from h)
  rw [hsame]
  exact hs

end Tells

/-! ### Tests -/

variable {fits : Symbol → Bool} {name : String} {s : Scopes}

theorem lookup_bind {α : Type} (f : Option Symbol → Analysis α) :
    (lookup name >>= f) s = f (s.lookup name) s := rfl

theorem get_bind {α : Type} (f : Scopes → Analysis α) : (get >>= f) s = f s s := rfl

theorem part_bind {α β : Type} {a : α} (f : α → Analysis β) : (part (.ok a) >>= f) = f a := rfl

theorem tells_read (around : List Enclosure) (hword : IsWord name) :
    Tells ((Phase.test (.read name)).run fun _ => true) around
      (∃ role, nearest around name = some role) around := by
  refine .test fun s hs => ⟨?_, ?_⟩
  · rintro ⟨u, s', h⟩
    obtain ⟨⟨symbol, hfound, -⟩, -⟩ := checkName_ok h
    have heq := hs.nearest_eq hword
    rw [show Scopes.findIn name s.toList = some symbol from hfound] at heq
    obtain ⟨role, hrole, -⟩ := Option.map_eq_some_iff.mp heq.symm
    exact ⟨role, hrole⟩
  · rintro ⟨role, hrole⟩
    obtain ⟨symbol, hfound, -⟩ := (hs.nearest_iff hword role).mp hrole
    refine ⟨(), s, ?_⟩
    rw [Test.check, checkName, lookup_bind, show s.lookup name = some symbol from hfound]
    rfl

theorem tells_assigned (around : List Enclosure) (hword : IsWord name) :
    Tells ((Phase.test (.assigned (.identifier name))).run fits) around
      (nearest around name = some .variable) around := by
  refine .test fun s hs => ?_
  rw [hs.nearest_iff hword]
  constructor
  · rintro ⟨u, s', h⟩
    obtain ⟨-, spelled, key, type, hname, hfound⟩ := checkTarget_inv h
    cases hname
    exact ⟨_, hfound, rfl⟩
  · rintro ⟨symbol, hfound, hrole⟩
    refine ⟨(), s, ?_⟩
    rw [Test.check, checkTarget, Node.namePart, part_bind, lookup_bind,
      show s.lookup name = some symbol from hfound]
    cases symbol <;> first
      | rfl
      | cases hrole

theorem tells_function (around : List Enclosure) (hword : IsWord name) (arguments : List Node) :
    Tells ((Phase.test (.function (.identifier name) arguments)).run fits) around
      (nearest around name = some (.function arguments.length)) around := by
  refine .test fun s hs => ?_
  rw [hs.nearest_iff hword]
  constructor
  · rintro ⟨u, s', h⟩
    obtain ⟨-, spelled, f, hname, hfound, hcount⟩ := checkFunction_inv h
    cases hname
    exact ⟨_, hfound, by rw [Symbol.role, hcount]⟩
  · rintro ⟨symbol, hfound, hrole⟩
    refine ⟨(), s, ?_⟩
    rw [Test.check, checkFunction, Node.namePart, part_bind, lookup_bind,
      show s.lookup name = some symbol from hfound]
    cases symbol with
    | function f =>
        have hcount := Role.function.inj (Option.some.inj hrole)
        show checkCount f.toRoutine name arguments s = _
        rw [checkCount, if_pos hcount]
        rfl
    | _ => cases hrole

theorem tells_procedure (around : List Enclosure) (hword : IsWord name) (arguments : List Node) :
    Tells ((Phase.test (.procedure (.identifier name) arguments)).run fits) around
      (nearest around name = some (.procedure arguments.length)) around := by
  refine .test fun s hs => ?_
  rw [hs.nearest_iff hword]
  constructor
  · rintro ⟨u, s', h⟩
    obtain ⟨-, spelled, p, hname, hfound, hcount⟩ := checkProcedure_inv h
    cases hname
    exact ⟨_, hfound, by rw [Symbol.role, hcount]⟩
  · rintro ⟨symbol, hfound, hrole⟩
    refine ⟨(), s, ?_⟩
    rw [Test.check, checkProcedure, Node.namePart, part_bind, lookup_bind,
      show s.lookup name = some symbol from hfound]
    cases symbol with
    | procedure p =>
        have hcount := Role.procedure.inj (Option.some.inj hrole)
        show checkCount p name arguments s = _
        rw [checkCount, if_pos hcount]
        rfl
    | _ => cases hrole

theorem tells_give (around : List Enclosure) (value : Node) :
    Tells ((Phase.test (.give value)).run fits) around (Site.mk around (.give value)).Obeys
      around := by
  refine .test fun s hs => ?_
  rw [Site.Obeys, hs.routine_iff value]
  constructor
  · rintro ⟨u, s', h⟩
    obtain ⟨b, mid, hcheck, -⟩ := bind_ok h
    exact (checkGive_inv hcheck).2.2
  · rintro ⟨scope, outer, symbol, hscope, hfound, hsymbol⟩
    obtain ⟨first, rest, rfl⟩ : ∃ first rest, outer = first :: rest := by
      cases outer with
      | nil => cases hfound
      | cons first rest => exact ⟨first, rest, rfl⟩
    refine ⟨(), s, ?_⟩
    show EStateM.bind (checkGive value) _ s = _
    unfold EStateM.bind
    have hcheck : checkGive value s = .ok (!value.isAbsent) s := by
      rw [checkGive, get_bind, hscope]
      simp only [hfound]
      rcases hsymbol with ⟨⟨f, rfl⟩, habsent⟩ | ⟨⟨p, rfl⟩, habsent⟩
      · simp only [habsent]
        rfl
      · simp only [habsent]
        rfl
    rw [hcheck]
    rfl

theorem tells_loop (around : List Enclosure) (e : SemanticError) :
    Tells ((Phase.test (.loop e)).run fits) around (∃ e ∈ around, e.kind = .whileBlock) around := by
  refine .test fun s hs => ?_
  rw [← hs.insideWhile_iff]
  constructor
  · rintro ⟨u, s', h⟩
    obtain ⟨b, mid, hinside, hrest⟩ := bind_ok h
    obtain ⟨rfl, rfl⟩ := insideWhile_ok hinside
    exact (test_ok hrest).1
  · intro hwhile
    refine ⟨(), s, ?_⟩
    show (if (s.toList.any fun scope => scope.kind = .whileBlock) = true then Pure.pure ()
      else fail e : Analysis Unit) s = _
    rw [if_pos hwhile]
    rfl

/-! ### Declarations -/

theorem requireNew_of_new {what : Declared} (hnew : s.declares name = false) :
    requireNew what name s = .ok () s := by
  rw [requireNew, hnew]
  rfl

theorem fresh_iff {around : List Enclosure} (hs : Stand s.toList around) (hword : IsWord name)
    (role : Role) : Fresh [⟨name, role⟩] around ↔ s.declares name = false := by
  rw [hs.declares_iff hword]
  simp [Fresh]

theorem tells_declare (around : List Enclosure) (what : Declared) (type : String)
    (hword : IsWord name) :
    Tells ((Phase.declare what (.typeName type) (.identifier name)).run fits) around
      (Fresh [⟨name, what.role⟩] around) (behind [⟨name, what.role⟩] around) := by
  intro s hs
  rw [fresh_iff hs hword]
  refine ⟨⟨?_, ?_⟩, ?_⟩
  · rintro ⟨u, s', h⟩
    exact (declareName_ok h).1
  · intro hnew
    refine ⟨(), s.define (what.symbol name type), ?_⟩
    show EStateM.bind (requireNew what name) _ s = _
    unfold EStateM.bind
    rw [requireNew_of_new hnew]
    rfl
  · intro u s' h
    obtain ⟨hnew, rfl⟩ := declareName_ok h
    have hname : (what.symbol name type).name = name := by cases what <;> rfl
    have hrole : (what.symbol name type).role = some what.role := by cases what <;> rfl
    have hdefined := hs.define (hname.symm ▸ hnew) hrole
    rw [hname] at hdefined
    exact hdefined

theorem tells_names (around : List Enclosure) (what : Declared) (type : String) {names : List Node}
    (hnames : ∀ n ∈ names, Formed IsWord .name n) :
    Tells (runAll fits (names.map (.declare what (.typeName type)))) around
      (Fresh (Node.declaredAs what.role names) around)
      (behind (Node.declaredAs what.role names) around) := by
  induction names generalizing around with
  | nil =>
      show Tells _ around (Fresh [] around) (behind [] around)
      rw [behind_nil]
      exact (Tells.pure around).congr (by simp [Fresh])
  | cons label names ih =>
      cases hnames label List.mem_cons_self with
      | @name spelled hword =>
          refine .of_cons fun hne => ?_
          rw [Node.declaredAs_cons, behind_append]
          have hrest := ih (behind [⟨spelled, what.role⟩] around)
            fun n hn => hnames n (List.mem_cons_of_mem _ hn)
          exact ((tells_declare around what type hword).bind hrest).congr (fresh_cons _ _ hne).symm

/-- Names with values: each value is looked at behind its name and the names before it. -/
theorem tells_initialized (around : List Enclosure) (what : Declared) (type : String)
    {names values : List Node} (hnames : ∀ n ∈ names, Formed IsWord .name n)
    (hvalues : ∀ v ∈ values, ∀ around, Tells (node fits v) around (Site.mk around v).Lawful around)
    (hlength : names.length = values.length) :
    Tells (runAll fits (Node.namePhases what (.typeName type) names values)) around
      (Fresh (Node.declaredAs what.role names) around ∧ ∀ q ∈ values.mapIdx (fun i value =>
        Site.mk (behind (Node.declaredAs what.role (names.take (i + 1))) around) value), q.Lawful)
      (behind (Node.declaredAs what.role names) around) := by
  induction names generalizing around values with
  | nil =>
      obtain rfl := List.length_eq_zero_iff.mp hlength.symm
      have hphases : Node.namePhases what (.typeName type) [] [] = [] := by cases what <;> rfl
      rw [hphases]
      show Tells _ around (Fresh [] around ∧ _) (behind [] around)
      rw [behind_nil]
      exact (Tells.pure around).congr (by simp [Fresh])
  | cons label names ih =>
      cases values with
      | nil => exact nomatch hlength
      | cons value values =>
          cases hnames label List.mem_cons_self with
          | @name spelled hword =>
              refine .of_cons fun hne => ?_
              rw [Node.declaredAs_cons, behind_append]
              have hvalue := hvalues value List.mem_cons_self (behind [⟨spelled, what.role⟩] around)
              have hrest := ih (behind [⟨spelled, what.role⟩] around)
                (fun n hn => hnames n (List.mem_cons_of_mem _ hn))
                (fun v hv => hvalues v (List.mem_cons_of_mem _ hv)) (Nat.succ.inj hlength)
              refine ((tells_declare around what type hword).bind (hvalue.bind hrest)).congr ?_
              have hfresh := fresh_cons ⟨spelled, what.role⟩ (Node.declaredAs what.role names) hne
              rw [List.singleton_append, Node.spelling, hfresh, List.mapIdx_cons,
                List.forall_mem_cons]
              simp only [List.take_succ_cons, List.take_zero, Node.declaredAs_cons, behind_append,
                Node.declaredAs_nil, behind_nil, Node.spelling]
              constructor
              · rintro ⟨hname, hvalue, hnames, hvalues⟩
                exact ⟨⟨hname, hnames⟩, hvalue, hvalues⟩
              · rintro ⟨⟨hname, hnames⟩, hvalue, hvalues⟩
                exact ⟨hname, hvalue, hnames, hvalues⟩

/-! ### Scopes -/

theorem tells_enterBlock (around : List Enclosure) (stem : String) {kind : ScopeKind}
    (hkind : kind.isRoutine = false) :
    Tells (enterBlock stem kind) around True (⟨kind, []⟩ :: around) := by
  intro s hs
  refine ⟨⟨fun _ => trivial, fun _ => ⟨_, _, rfl⟩⟩, ?_⟩
  intro u s' h
  cases h
  exact hs.block _ hkind

theorem tells_leave {around : List Enclosure} (hne : around ≠ []) (e : Enclosure) :
    Tells leave (e :: around) True around := by
  intro s hs
  refine ⟨⟨fun _ => trivial, fun _ => ⟨_, _, rfl⟩⟩, ?_⟩
  intro u s' h
  cases h
  exact hs.leave hne

theorem tells_scope {around : List Enclosure} {P : Prop} (stem : String) {kind : ScopeKind}
    (hkind : kind.isRoutine = false) {parts : List Node} {new : List Declaration}
    (hparts : Tells (nodes fits parts) (⟨kind, []⟩ :: around) P
      (behind new (⟨kind, []⟩ :: around))) :
    Tells ((Phase.scope stem kind parts).run fits) around P around := by
  refine .of_cons fun hne => ?_
  have hleave := hparts.bind (tells_leave hne _)
  exact ((tells_enterBlock around stem hkind).bind hleave).congr (by simp)

theorem tells_openRoutine (around : List Enclosure) (what : Declared) {kind : ScopeKind}
    {parameters : List Node} {ps : List Parameter} {symbol : Symbol} {role : Role}
    {make : String → List Parameter → Except Fault Symbol} (hword : IsWord symbol.name)
    (hps : Parameter.ofNodes parameters = .ok ps) (hmake : make symbol.name ps = .ok symbol)
    (hrole : symbol.role = some role)
    (hkind : (∃ f, kind = .function ∧ symbol = .function f) ∨
      ∃ p, kind = .procedure ∧ symbol = .procedure p) :
    Tells (openRoutine what kind (.identifier symbol.name) parameters make) around
      (Fresh [⟨symbol.name, role⟩] around)
      (⟨kind, ps.map fun p => ⟨p.name, .variable⟩⟩ :: behind [⟨symbol.name, role⟩] around) := by
  intro s hs
  rw [fresh_iff hs hword]
  refine ⟨⟨?_, ?_⟩, ?_⟩
  · rintro ⟨u, s', h⟩
    exact (openRoutine_ok h).1
  · intro hnew
    refine ⟨(), (s.define symbol).enter symbol.name kind ps, ?_⟩
    show EStateM.bind (requireNew what symbol.name) _ s = _
    unfold EStateM.bind
    rw [requireNew_of_new hnew, hps]
    dsimp only
    rw [part_bind, hmake]
    rfl
  · intro u s' h
    obtain ⟨hnew, ps', symbol', hps', hmake', rfl⟩ := openRoutine_ok h
    obtain rfl := Except.ok.inj (hps.symm.trans hps')
    obtain rfl := Except.ok.inj (hmake.symm.trans hmake')
    exact hs.body hnew hrole hkind ps

end Analysis

/-- Well-formed parameters are read, with the names that they spell. -/
theorem Formed.ofNodes {parameters : List Node}
    (h : ∀ p ∈ parameters, Formed IsWord .parameter p) :
    ∃ ps, Parameter.ofNodes parameters = .ok ps ∧
      (ps.map fun p => (⟨p.name, .variable⟩ : Declaration)) =
        Node.declaredAs .variable parameters := by
  induction parameters with
  | nil => exact ⟨[], rfl, rfl⟩
  | cons p parameters ih =>
      obtain ⟨ps, hps, hnames⟩ := ih fun q hq => h q (List.mem_cons_of_mem _ hq)
      cases h p List.mem_cons_self with
      | parameter hname htype =>
          cases hname with
          | @name spelled _ =>
              cases htype with
              | type type =>
                  refine ⟨⟨spelled, type⟩ :: ps, ?_, ?_⟩
                  · simp only [Parameter.ofNodes, Node.identifierPart, Node.namePart,
                      Node.typePart, hps]
                    rfl
                  · rw [Node.declaredAs_cons, ← hnames]
                    rfl

theorem Formed.ofNodes_length {parameters : List Node}
    (h : ∀ p ∈ parameters, Formed IsWord .parameter p) :
    ∃ ps, Parameter.ofNodes parameters = .ok ps ∧ ps.length = parameters.length := by
  obtain ⟨ps, hps, hnames⟩ := Formed.ofNodes h
  refine ⟨ps, hps, ?_⟩
  have hlength := congrArg List.length hnames
  rwa [List.length_map, Node.declaredAs, List.length_map] at hlength

/-! ### Every part -/

/-- What is declared in a block behind a part: what a statement declares, or what the statements of
    the block itself do. -/
def Node.declaredBehind : Node → List Declaration
  | .block statements => statements.flatMap Node.declarations
  | part => part.declarations

/-- Whether parts of a category can declare anything. -/
def Category.mayDeclare : Category → Bool
  | .statement | .block => true
  | _ => false

theorem Formed.declaredBehind_eq_nil {W : String → Prop} {c : Category} {part : Node}
    (h : Formed W c part) (hc : c.mayDeclare = false) : part.declaredBehind = [] := by
  induction h with
  | present _ ih => exact ih rfl
  | _ => first
    | rfl
    | cases hc

theorem Formed.declaredBehind_eq {W : String → Prop} {part : Node} (h : Formed W .statement part) :
    part.declaredBehind = part.declarations := by
  cases h <;> rfl

/-- The analysis passes a part exactly where everything within it obeys the rules, and leaves the
    scopes behind what it declares. -/
def Node.Agrees (part : Node) : Prop := ∀ around : List Enclosure,
  Analysis.Tells (Analysis.node (fun _ => true) part) around (Site.mk around part).Lawful
    (behind part.declaredBehind around)

namespace Node.Agrees

variable {part : Node} {around : List Enclosure} {P : Prop}

theorem of_phases {after : List Enclosure}
    (h : Analysis.Tells (Analysis.runAll (fun _ => true) part.phases) around P after)
    (hP : P ↔ (Site.mk around part).Obeys ∧ ∀ q ∈ (Site.mk around part).parts, q.Lawful) :
    Analysis.Tells (Analysis.node (fun _ => true) part) around (Site.mk around part).Lawful
      after := by
  rw [Analysis.node_eq]
  exact h.congr (hP.trans (Site.lawful_iff _).symm)

/-- What declares nothing leaves the scopes as they are. -/
theorem still {c : Category} (h : part.Agrees) (hformed : Formed IsWord c part)
    (hc : c.mayDeclare = false) (around : List Enclosure) :
    Analysis.Tells (Analysis.node (fun _ => true) part) around (Site.mk around part).Lawful
      around := by
  have htells := h around
  rw [hformed.declaredBehind_eq_nil hc, behind_nil] at htells
  exact htells

/-- A part that may be left out. -/
theorem present {c : Category} (h : part.isAbsent = false → part.Agrees)
    (hformed : Formed IsWord c part) (hc : c.mayDeclare = false) (around : List Enclosure) :
    Analysis.Tells (Analysis.runAll (fun _ => true) part.presentPhase) around
      (Site.mk around part).Lawful around := by
  rw [Analysis.runAll_presentPhase]
  cases habsent : part.isAbsent with
  | true =>
      obtain rfl := Analysis.eq_absent habsent
      exact (Analysis.Tells.pure around).congr
        ⟨fun _ => Site.lawful_absent around, fun _ => trivial⟩
  | false => exact (h habsent).still hformed hc around

/-- Parts that leave the scopes as they are. -/
theorem parts {parts : List Node}
    (h : ∀ part ∈ parts, ∀ around, Analysis.Tells (Analysis.node (fun _ => true) part) around
      (Site.mk around part).Lawful around) (around : List Enclosure) :
    Analysis.Tells (Analysis.runAll (fun _ => true) (parts.map .part)) around
      (∀ part ∈ parts, (Site.mk around part).Lawful) around := by
  induction parts with
  | nil => exact (Analysis.Tells.pure around).congr (by simp)
  | cons first rest ih =>
      have hfirst := h first List.mem_cons_self around
      have hrest := ih fun part hpart => h part (List.mem_cons_of_mem _ hpart)
      exact (hfirst.bind hrest).congr (by rw [List.forall_mem_cons])

/-- Statements, each behind what those before it declare. -/
theorem statements {statements : List Node}
    (h : ∀ part ∈ statements, part.Agrees ∧ Formed IsWord .statement part)
    (around : List Enclosure) :
    Analysis.Tells (Analysis.runAll (fun _ => true) (statements.map .part)) around
      (∀ q ∈ statements.mapIdx (fun i part =>
        Site.mk (behind ((statements.take i).flatMap Node.declarations) around) part), q.Lawful)
      (behind (statements.flatMap Node.declarations) around) := by
  induction statements generalizing around with
  | nil =>
      rw [List.flatMap_nil, behind_nil]
      exact (Analysis.Tells.pure around).congr (by simp)
  | cons first rest ih =>
      obtain ⟨hagrees, hformed⟩ := h first List.mem_cons_self
      have hfirst := hagrees around
      rw [hformed.declaredBehind_eq] at hfirst
      have hrest := ih (fun part hpart => h part (List.mem_cons_of_mem _ hpart))
        (behind first.declarations around)
      rw [List.flatMap_cons, behind_append]
      refine (hfirst.bind hrest).congr ?_
      rw [List.mapIdx_cons, List.forall_mem_cons]
      simp only [List.take_succ_cons, List.take_zero, List.flatMap_cons, List.flatMap_nil,
        behind_append, behind_nil]

/-- The block of a branch or a loop, with a scope of its own. -/
theorem scope {body : Node} (h : body.Agrees) (stem : String) {kind : ScopeKind}
    (hkind : kind.isRoutine = false) (around : List Enclosure) :
    Analysis.Tells ((Analysis.Phase.scope stem kind [body]).run fun _ => true) around
      (Site.mk (⟨kind, []⟩ :: around) body).Lawful around := by
  have hbody := (h (⟨kind, []⟩ :: around)).bind (Analysis.Tells.pure _)
  rw [and_true] at hbody
  exact Analysis.tells_scope stem hkind hbody

/-- The first assignment of a for loop is in the scope of its block. -/
theorem forScope {initial body : Node} (hinitial : initial.Agrees)
    (hnothing : initial.declaredBehind = []) (hbody : body.Agrees) (around : List Enclosure) :
    Analysis.Tells ((Analysis.Phase.scope "for_statement_" .forBlock [initial, body]).run
        fun _ => true) around
      ((Site.mk (⟨.forBlock, []⟩ :: around) initial).Lawful ∧
        (Site.mk (⟨.forBlock, []⟩ :: around) body).Lawful) around := by
  have hfirst := hinitial (⟨.forBlock, []⟩ :: around)
  rw [hnothing, behind_nil] at hfirst
  have hparts := hfirst.bind ((hbody (⟨.forBlock, []⟩ :: around)).bind (Analysis.Tells.pure _))
  rw [and_true] at hparts
  exact Analysis.tells_scope "for_statement_" rfl hparts

/-- A routine, and its body in a scope of its own. -/
theorem routine {body : Node} (h : body.Agrees) (what : Declared) {kind : ScopeKind}
    {parameters : List Node} (symbol : Symbol) {role : Role}
    {make : String → List Parameter → Except Fault Symbol} (hword : IsWord symbol.name)
    (hparameters : ∀ p ∈ parameters, Formed IsWord .parameter p)
    (hmake : ∀ ps, Parameter.ofNodes parameters = .ok ps → make symbol.name ps = .ok symbol)
    (hrole : symbol.role = some role)
    (hkind : (∃ f, kind = .function ∧ symbol = .function f) ∨
      ∃ p, kind = .procedure ∧ symbol = .procedure p) (around : List Enclosure) :
    Analysis.Tells
      ((Analysis.Phase.routine what kind (.identifier symbol.name) parameters make body).run
        fun _ => true) around
      (Fresh [⟨symbol.name, role⟩] around ∧
        (Site.mk (⟨kind, Node.declaredAs .variable parameters⟩ ::
          behind [⟨symbol.name, role⟩] around) body).Lawful)
      (behind [⟨symbol.name, role⟩] around) := by
  refine .of_cons fun hne => ?_
  obtain ⟨ps, hps, hnames⟩ := Formed.ofNodes hparameters
  have hopen := Analysis.tells_openRoutine around what hword hps (hmake ps hps) hrole hkind
  rw [hnames] at hopen
  have hbehind : behind [⟨symbol.name, role⟩] around ≠ [] := by
    obtain ⟨e, outer, rfl⟩ := List.exists_cons_of_ne_nil hne
    exact List.cons_ne_nil _ _
  have hbody := (h (⟨kind, Node.declaredAs .variable parameters⟩ ::
    behind [⟨symbol.name, role⟩] around)).bind (Analysis.tells_leave hbehind _)
  rw [and_true] at hbody
  exact hopen.bind hbody

theorem of_still (hnothing : part.declaredBehind = [])
    (h : ∀ around, ∃ P,
      Analysis.Tells (Analysis.runAll (fun _ => true) part.phases) around P around ∧
        (P ↔ (Site.mk around part).Obeys ∧ ∀ q ∈ (Site.mk around part).parts, q.Lawful)) :
    part.Agrees := by
  intro around
  obtain ⟨P, htells, hP⟩ := h around
  rw [hnothing, behind_nil]
  exact of_phases htells hP

theorem assignment {target value : Node} (htarget : Formed IsWord .name target)
    (hvalue : ∀ around, Analysis.Tells (Analysis.node (fun _ => true) value) around
      (Site.mk around value).Lawful around) : (Node.assignment target value).Agrees := by
  cases htarget with
  | name hword =>
      refine .of_still rfl fun around => ⟨_, (Analysis.tells_assigned around hword).bind
        ((hvalue around).bind (.pure _)), ?_⟩
      simp [Site.Obeys, Site.parts, Node.spelling]

end Node.Agrees

/-- Whether parts of a category can be left out. -/
def Category.mayLack : Category → Bool
  | .optional | .alternative => true
  | _ => false

namespace Formed

open Analysis (Tells)

theorem isAbsent_eq_false {W : String → Prop} {c : Category} {part : Node} (h : Formed W c part)
    (hc : c.mayLack = false) : part.isAbsent = false := by
  cases h <;> first
    | rfl
    | cases hc

/-- What an expression says of itself, given what is known of well-formed parts. -/
theorem expression_tells {part : Node} (h : Formed IsWord .expression part)
    (hagrees : Category.expression.IsAnalyzed → part.isAbsent = false → part.Agrees)
    (around : List Enclosure) :
    Tells (Analysis.node (fun _ => true) part) around (Site.mk around part).Lawful around :=
  (hagrees trivial (h.isAbsent_eq_false rfl)).still h rfl around

/-- The analysis passes a well-formed part exactly where everything within it obeys the rules. -/
theorem agrees {c : Category} {part : Node} (h : Formed IsWord c part) (hc : c.IsAnalyzed)
    (hpresent : part.isAbsent = false) : part.Agrees := by
  induction h with
  | name _ | type _ | parameter _ _ _ _ | program _ _ => exact absurd hc fun h => h
  | absent | noAlternative => cases hpresent
  | present _ ih => exact ih trivial hpresent
  | identifier hword =>
      refine .of_still rfl fun around => ⟨_, (Analysis.tells_read around hword).bind (.pure _), ?_⟩
      simp [Site.Obeys, Site.parts]
  | number lexeme | string lexeme | boolean lexeme =>
      refine .of_still rfl fun around => ⟨_, .pure _, ?_⟩
      simp [Site.Obeys, Site.parts]
  | functionCall hcallee harguments _ iharguments =>
      cases hcallee with
      | name hword =>
          refine .of_still rfl fun around => ⟨_, (Analysis.tells_function around hword _).bind
            (Node.Agrees.parts (fun a ha => (harguments a ha).expression_tells (iharguments a ha))
              around), ?_⟩
          simp [Site.Obeys, Site.parts, Node.spelling]
  | binary operator hleft hright ihleft ihright
  | logical operator hleft hright ihleft ihright
  | comparison operator hleft hright ihleft ihright =>
      refine .of_still rfl fun around => ⟨_, (hleft.expression_tells ihleft around).bind
        ((hright.expression_tells ihright around).bind (.pure _)), ?_⟩
      simp [Site.Obeys, Site.parts]
  | unary operator h ih | negation operator h ih | truth h ih =>
      refine .of_still rfl fun around => ⟨_, (h.expression_tells ih around).bind (.pure _), ?_⟩
      simp [Site.Obeys, Site.parts]
  | @variableDecl type names values htype hnames hvalues hlength _ _ ihvalues =>
      intro around
      cases htype with
      | type type =>
          have hparts := fun v hv => (hvalues v hv).expression_tells (ihvalues v hv)
          rcases hlength with rfl | hlength
          · have hphases : (Node.variableDecl (.typeName type) names []).phases =
                names.map (.declare .variable (.typeName type)) := by
              cases names <;> rfl
            refine Node.Agrees.of_phases
              (hphases ▸ Analysis.tells_names around .variable type hnames) ?_
            simp [Site.Obeys, Site.parts, Node.declarations, Declared.role]
          · exact Node.Agrees.of_phases
              (Analysis.tells_initialized around .variable type hnames hparts hlength) Iff.rfl
  | constantDecl htype hnames hvalues hlength _ _ ihvalues =>
      intro around
      cases htype with
      | type type =>
          have hparts := fun v hv => (hvalues v hv).expression_tells (ihvalues v hv)
          exact Node.Agrees.of_phases
            (Analysis.tells_initialized around .constant type hnames hparts hlength) Iff.rfl
  | assignment htarget hvalue _ ihvalue =>
      exact .assignment htarget (hvalue.expression_tells ihvalue)
  | @give value hvalue ihvalue =>
      refine .of_still rfl fun around => ⟨_, (Analysis.tells_give around value).bind
        (Node.Agrees.present (ihvalue trivial) hvalue rfl around), ?_⟩
      simp [Site.parts]
  | display h ih =>
      refine .of_still rfl fun around => ⟨_, (h.expression_tells ih around).bind (.pure _), ?_⟩
      simp [Site.Obeys, Site.parts]
  | @functionDecl name type body parameters hname hparameters htype hbody _ _ _ ihbody =>
      have hblock := ihbody trivial (hbody.isAbsent_eq_false rfl)
      obtain ⟨ps, hps, hlength⟩ := ofNodes_length hparameters
      cases hname with
      | @name spelled hword =>
          cases htype with
          | type type =>
              intro around
              have hrole : (functionSymbol spelled type ps body).role =
                  some (.function parameters.length) := by
                rw [Symbol.role, getD_someUnlessEmpty, hlength]
              have hmake : ∀ ps', Parameter.ofNodes parameters = .ok ps' →
                  Analysis.functionSymbol (.typeName type) body spelled ps' =
                    .ok (functionSymbol spelled type ps body) := by
                intro ps' hps'
                rw [Except.ok.inj (hps'.symm.trans hps)]
                rfl
              refine Node.Agrees.of_phases ((hblock.routine .function
                (functionSymbol spelled type ps body) hword hparameters hmake hrole
                (.inl ⟨_, rfl, rfl⟩) around).bind (.pure _)) ?_
              simp [Site.Obeys, Site.parts, Node.declarations, Node.spelling, Symbol.name]
  | @procedureDecl name body parameters hname hparameters hbody _ _ ihbody =>
      have hblock := ihbody trivial (hbody.isAbsent_eq_false rfl)
      obtain ⟨ps, hps, hlength⟩ := ofNodes_length hparameters
      cases hname with
      | @name spelled hword =>
          intro around
          have hrole : (procedureSymbol spelled ps body).role =
              some (.procedure parameters.length) := by
            rw [Symbol.role, getD_someUnlessEmpty, hlength]
          have hmake : ∀ ps', Parameter.ofNodes parameters = .ok ps' →
              Analysis.procedureSymbol body spelled ps' =
                .ok (procedureSymbol spelled ps body) := by
            intro ps' hps'
            rw [Except.ok.inj (hps'.symm.trans hps)]
            rfl
          refine Node.Agrees.of_phases ((hblock.routine .procedure (procedureSymbol spelled ps body)
            hword hparameters hmake hrole (.inr ⟨_, rfl, rfl⟩) around).bind (.pure _)) ?_
          simp [Site.Obeys, Site.parts, Node.declarations, Node.spelling, Symbol.name]
  | procedureCall hcallee harguments _ iharguments =>
      cases hcallee with
      | name hword =>
          refine .of_still rfl fun around => ⟨_, (Analysis.tells_procedure around hword _).bind
            (Node.Agrees.parts (fun a ha => (harguments a ha).expression_tells (iharguments a ha))
              around), ?_⟩
          simp [Site.Obeys, Site.parts, Node.spelling]
  | ifElse hcondition hbody helifs halternative ihcondition ihbody ihelifs ihalternative =>
      have hblock := ihbody trivial (hbody.isAbsent_eq_false rfl)
      have hbranches : ∀ e ∈ _, ∀ around, Tells (Analysis.node (fun _ => true) e) around
          (Site.mk around e).Lawful around := fun e he =>
        (ihelifs e he trivial ((helifs e he).isAbsent_eq_false rfl)).still (helifs e he) rfl
      refine .of_still rfl fun around => ⟨_, (hcondition.expression_tells ihcondition around).bind
        ((hblock.scope _ rfl around).bind (.append (Node.Agrees.parts hbranches around)
          (Node.Agrees.present (ihalternative trivial) halternative rfl around))), ?_⟩
      simp [Site.Obeys, Site.parts, or_imp, forall_and]
  | whileLoop hcondition hbody ihcondition ihbody =>
      have hblock := ihbody trivial (hbody.isAbsent_eq_false rfl)
      refine .of_still rfl fun around => ⟨_, (hcondition.expression_tells ihcondition around).bind
        ((hblock.scope _ rfl around).bind (.pure _)), ?_⟩
      simp [Site.Obeys, Site.parts]
  | elif hcondition hbody ihcondition ihbody =>
      have hblock := ihbody trivial (hbody.isAbsent_eq_false rfl)
      refine .of_still rfl fun around => ⟨_, (hcondition.expression_tells ihcondition around).bind
        ((hblock.scope _ rfl around).bind (.pure _)), ?_⟩
      simp [Site.Obeys, Site.parts]
  | otherwise hbody ihbody =>
      have hblock := ihbody trivial (hbody.isAbsent_eq_false rfl)
      refine .of_still rfl fun around => ⟨_, (hblock.scope _ rfl around).bind (.pure _), ?_⟩
      simp [Site.Obeys, Site.parts]
  | forLoop htarget hvalue htermination hstep hbody _ ihvalue ihtermination ihstep ihbody =>
      have hblock := ihbody trivial (hbody.isAbsent_eq_false rfl)
      have hinitial := Node.Agrees.assignment htarget (hvalue.expression_tells ihvalue)
      have hend := htermination.expression_tells ihtermination
      refine .of_still rfl fun around => ⟨_, (hend around).bind
        (.append (Node.Agrees.present (ihstep trivial) hstep rfl around)
          ((Node.Agrees.forScope hinitial rfl hblock around).bind (.pure _))), ?_⟩
      simp [Site.Obeys, Site.parts]
  | skip =>
      refine .of_still rfl fun around => ⟨_, (Analysis.tells_loop around _).bind (.pure _), ?_⟩
      simp [Site.Obeys, Site.parts]
  | stop =>
      refine .of_still rfl fun around => ⟨_, (Analysis.tells_loop around _).bind (.pure _), ?_⟩
      simp [Site.Obeys, Site.parts]
  | block h ih =>
      intro around
      refine Node.Agrees.of_phases (Node.Agrees.statements (fun part hpart => ⟨ih part hpart trivial
        ((h part hpart).isAbsent_eq_false rfl), h part hpart⟩) around) ?_
      simp [Site.Obeys, Site.parts]

end Formed

/-! ## Programs -/

theorem Stand.initial : Stand Scopes.initial.toList [⟨.program, []⟩] :=
  .cons (Scope.Stands.make "global" .program 1) nofun nofun .nil

/-- The analysis accepts exactly the programs that obey the rules: each block declares a name once
    and no parameter of its routine, what is read is declared, what is assigned to is a variable or
    a parameter, what is called is a routine of that kind with as many parameters, gives fit the
    routine around them, and skips and stops stand in some while loop. -/
theorem accepted_iff_lawful {source : String} {tree : Node} (hparse : parse source = .ok tree) :
    (analyze tree).1 = none ↔ tree.Lawful := by
  cases parse_formed hparse with
  | @program body hbody =>
      have hagrees := hbody.agrees trivial (hbody.isAbsent_eq_false rfl)
      have hpasses := (hagrees _ Scopes.initial .initial).1
      have hlawful : (Node.program body).Lawful ↔ (Site.mk [⟨.program, []⟩] body).Lawful := by
        rw [Node.Lawful, Site.lawful_iff]
        simp [Site.Obeys, Site.parts]
      rw [hlawful, ← hpasses]
      unfold analyze analyzeIn analyzeWith
      rw [Analysis.node]
      cases hrun : Analysis.node (fun _ => true) body Scopes.initial with
      | ok u after => exact ⟨fun _ => ⟨u, after, hrun⟩, fun _ => rfl⟩
      | error e after =>
          constructor
          · intro h
            cases h
          · rintro ⟨u, after', hok⟩
            cases hrun.symm.trans hok

/-- A name is visible in its own value, a parameter hides it, and a skip may be in a routine within
    the loop; but the body of a routine does not declare a parameter again. -/
theorem accepted_iff_lawful_for_parameters :
    (∃ source tree, parse source = .ok tree ∧ (analyze tree).1 = none ∧ tree.Lawful) ∧
      ∃ source tree, parse source = .ok tree ∧ (analyze tree).1 ≠ none ∧ ¬ tree.Lawful := by
  let boolean := Node.typeName "boolean"
  let b := Node.identifier "b"
  let p := Node.identifier "p"
  constructor
  · let tree := Node.program (.block [.variableDecl boolean [b] [b],
      .whileLoop (.truth b) (.block [.procedureDecl p [.parameter b boolean] (.block [.skip]),
        .procedureCall p [b]])])
    have hparse : parse ("\x7b\nlet boolean b = b\nwhile b \x7b\nproc p(boolean b) \x7b\n"
        ++ "skip\n\x7d\nexec p(b)\n\x7d\n\x7d") = .ok tree := by cbv
    have haccepted : (analyze tree).1 = none := by cbv
    exact ⟨_, tree, hparse, haccepted, (accepted_iff_lawful hparse).mp haccepted⟩
  · let tree := Node.program (.block [.procedureDecl p [.parameter b boolean]
      (.block [.variableDecl boolean [b] []])])
    have hparse : parse "\x7b\nproc p(boolean b) \x7b\nlet boolean b\n\x7d\n\x7d" = .ok tree := by
      cbv
    have hrejected : (analyze tree).1 = some (.semantic (.duplicate .variable "b")) := by cbv
    have hnot : (analyze tree).1 ≠ none := by
      rw [hrejected]
      exact Option.some_ne_none _
    exact ⟨_, tree, hparse, hnot, fun hlawful => hnot ((accepted_iff_lawful hparse).mpr hlawful)⟩

end BraceScript
