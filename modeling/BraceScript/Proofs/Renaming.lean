import Mathlib.Data.List.Basic
import Mathlib.Logic.Function.Basic
import BraceScript.Evaluation
import BraceScript.Proofs.Parts

/-! # Renaming — other names for the same things

    A renaming gives every name of a program another one, in the tree and in everything that a run
    of it holds.  The record of the program itself and all texts that are shown keep their names.

    * `Node.rename`, `Machine.rename`, `Run.rename`: what is renamed;
    * `Run.rename_congr`: renaming depends only on the names that occur;
    * `Run.names_rename`: the names that occur behind a renaming are the renamed ones;
    * `Table.get?_rename`, `Table.insert_rename`: tables are renamed without loss if no two names
      become one. -/

namespace BraceScript

variable {α β : Type} {f g : String → String}

/-! ## Trees -/

namespace Node

mutual

/-- A part with all its names renamed. -/
def rename (f : String → String) : Node → Node
  | .absent => .absent
  | .bare text => .bare text
  | .incomplete lacking parts => .incomplete lacking (renameAll f parts)
  | .program body => .program (body.rename f)
  | .block statements => .block (renameAll f statements)
  | .typeName name => .typeName (f name)
  | .identifier name => .identifier (f name)
  | .variableDecl type names values =>
      .variableDecl (type.rename f) (renameAll f names) (renameAll f values)
  | .constantDecl type names values =>
      .constantDecl (type.rename f) (renameAll f names) (renameAll f values)
  | .assignment target value => .assignment (target.rename f) (value.rename f)
  | .give value => .give (value.rename f)
  | .display value => .display (value.rename f)
  | .elif condition body => .elif (condition.rename f) (body.rename f)
  | .otherwise body => .otherwise (body.rename f)
  | .ifElse condition body elifs alternative =>
      .ifElse (condition.rename f) (body.rename f) (renameAll f elifs) (alternative.rename f)
  | .whileLoop condition body => .whileLoop (condition.rename f) (body.rename f)
  | .forLoop initial termination step body =>
      .forLoop (initial.rename f) (termination.rename f) (step.rename f) (body.rename f)
  | .skip => .skip
  | .stop => .stop
  | .parameter name type => .parameter (name.rename f) (type.rename f)
  | .functionDecl name parameters giveType body =>
      .functionDecl (name.rename f) (renameAll f parameters) (giveType.rename f) (body.rename f)
  | .procedureDecl name parameters body =>
      .procedureDecl (name.rename f) (renameAll f parameters) (body.rename f)
  | .functionCall callee arguments => .functionCall (callee.rename f) (renameAll f arguments)
  | .procedureCall callee arguments => .procedureCall (callee.rename f) (renameAll f arguments)
  | .binary left operator right => .binary (left.rename f) operator (right.rename f)
  | .unary operator operand => .unary operator (operand.rename f)
  | .truth expression => .truth (expression.rename f)
  | .logical left operator right => .logical (left.rename f) operator (right.rename f)
  | .negation operator operand => .negation operator (operand.rename f)
  | .comparison left comparator right => .comparison (left.rename f) comparator (right.rename f)
  | .number lexeme => .number lexeme
  | .string lexeme => .string lexeme
  | .boolean lexeme => .boolean lexeme

/-- Several parts with all their names renamed. -/
def renameAll (f : String → String) : List Node → List Node
  | [] => []
  | node :: rest => node.rename f :: renameAll f rest

end

@[simp] theorem renameAll_eq (nodes : List Node) : renameAll f nodes = nodes.map (rename f) := by
  induction nodes with
  | nil => rfl
  | cons node rest ih => rw [renameAll, ih, List.map_cons]

theorem children_rename (node : Node) :
    (node.rename f).children = node.children.map (rename f) := by
  cases node <;> simp [rename, children]

/-- The name that a part itself spells. -/
def ownNames : Node → List String
  | .identifier name | .typeName name => [name]
  | _ => []

/-- The names in a part, each as often as it occurs. -/
def names (node : Node) : List String := node.parts.flatMap ownNames

theorem names_eq (node : Node) : node.names = node.ownNames ++ node.children.flatMap names := by
  have hchildren : node.children.flatMap names =
      node.children.attach.flatMap fun part => names part.1 := by
    rw [← List.flatMap_map Subtype.val names, List.attach_map_subtype_val]
  rw [hchildren, names, parts, List.flatMap_cons, List.flatMap_assoc]
  rfl

/-- Renaming depends only on the names that occur. -/
theorem rename_congr {node : Node} (h : ∀ x ∈ node.names, f x = g x) :
    node.rename f = node.rename g := by
  induction node using children_induction with
  | h node ih =>
      rw [names_eq] at h
      have hown : ∀ x ∈ node.ownNames, f x = g x := fun x hx => h x (List.mem_append_left _ hx)
      have hchildren : ∀ child ∈ node.children, child.rename f = child.rename g := by
        intro child hchild
        refine ih child hchild fun x hx => h x (List.mem_append_right _ ?_)
        exact List.mem_flatMap.mpr ⟨child, hchild, hx⟩
      cases node <;> simp_all [rename, children, ownNames]

theorem names_rename (node : Node) : (node.rename f).names = node.names.map f := by
  induction node using children_induction with
  | h node ih =>
      have hown : (node.rename f).ownNames = node.ownNames.map f := by cases node <;> rfl
      rw [names_eq, names_eq, hown, children_rename, List.map_append, List.flatMap_map,
        List.map_flatMap]
      congr 1
      exact List.flatMap_congr ih

theorem rename_id (node : Node) : node.rename id = node := by
  induction node using children_induction with
  | h node ih =>
      have hall : ∀ nodes : List Node, (∀ part ∈ nodes, part.rename id = part) →
          nodes.map (rename id) = nodes := fun nodes h =>
        (List.map_congr_left h).trans (List.map_id nodes)
      cases node <;> simp_all [rename, children]

end Node

/-! ## Faults -/

namespace Fault

/-- A fault with its names renamed. -/
def rename (f : String → String) : Fault → Fault
  | .undefined name => .undefined (f name)
  | .emptyGive function => .emptyGive (f function)
  | .notGiving function => .notGiving (f function)
  | .procedureGave procedure => .procedureGave (f procedure)
  | .noDefault type => .noDefault (f type)
  | fault => fault

/-- The names in a fault. -/
def names : Fault → List String
  | .undefined name | .emptyGive name | .notGiving name | .procedureGave name
  | .noDefault name => [name]
  | _ => []

theorem rename_congr {fault : Fault} (h : ∀ x ∈ fault.names, f x = g x) :
    fault.rename f = fault.rename g := by
  cases fault <;> simp_all [rename, names]

theorem names_rename (fault : Fault) : (fault.rename f).names = fault.names.map f := by
  cases fault <;> rfl

/-- The code of an error does not depend on names. -/
theorem code_rename (fault : Fault) :
    (fault.rename f).coded?.map Prod.fst = fault.coded?.map Prod.fst := by
  cases fault <;> rfl

/-- An outcome or a fault, renamed. -/
def within (f : String → String) (φ : α → β) : Except Fault α → Except Fault β
  | .ok a => .ok (φ a)
  | .error fault => .error (fault.rename f)

end Fault

namespace Node

@[simp] theorem isAbsent_rename (node : Node) : (node.rename f).isAbsent = node.isAbsent := by
  cases node <;> rfl

theorem namePart_rename (node : Node) :
    (node.rename f).namePart = Fault.within f f node.namePart := by
  cases node <;> rfl

theorem identifierPart_rename (node : Node) :
    (node.rename f).identifierPart = Fault.within f (rename f) node.identifierPart := by
  cases node <;> rfl

theorem typePart_rename (node : Node) :
    (node.rename f).typePart = Fault.within f (rename f) node.typePart := by
  cases node <;> rfl

theorem expressionPart_rename (node : Node) :
    (node.rename f).expressionPart = Fault.within f (rename f) node.expressionPart := by
  cases node <;> rfl

theorem conditionPart_rename (node : Node) :
    (node.rename f).conditionPart = Fault.within f (rename f) node.conditionPart := by
  cases node <;> rfl

theorem blockPart_rename (node : Node) :
    (node.rename f).blockPart = Fault.within f (rename f) node.blockPart := by
  cases node <;> rfl

end Node

/-! ## Tables -/

namespace Table

/-- A table with its names renamed, and what they stand for. -/
def rename (f : String → String) (φ : α → β) (t : Table α) : Table β :=
  t.map fun entry => (f entry.1, φ entry.2)

/-- The names in a table, and in what they stand for. -/
def names (ν : α → List String) (t : Table α) : List String :=
  t.flatMap fun entry => entry.1 :: ν entry.2

theorem get?_rename (hf : Function.Injective f) (φ : α → β) (t : Table α) (name : String) :
    (t.rename f φ).get? (f name) = (t.get? name).map φ := by
  induction t with
  | nil => rfl
  | cons entry rest ih =>
      obtain ⟨key, value⟩ := entry
      show (if f key = f name then some (φ value) else get? (rename f φ rest) (f name)) = _
      by_cases hkey : key = name
      · simp [get?, hkey]
      · rw [if_neg fun h => hkey (hf h), ih, get?, if_neg hkey]

theorem insert_rename (hf : Function.Injective f) (φ : α → β) (t : Table α) (name : String)
    (value : α) : (t.rename f φ).insert (f name) (φ value) = (t.insert name value).rename f φ := by
  induction t with
  | nil => rfl
  | cons entry rest ih =>
      obtain ⟨key, old⟩ := entry
      show (if f key = f name then (f key, φ value) :: rename f φ rest
        else (f key, φ old) :: insert (rename f φ rest) (f name) (φ value)) = _
      by_cases hkey : key = name
      · rw [if_pos (congrArg f hkey), insert, if_pos hkey]
        rfl
      · rw [if_neg fun h => hkey (hf h), ih, insert, if_neg hkey]
        rfl

end Table

/-- Lists are renamed item by item. -/
theorem map_rename_congr (ρ : (String → String) → α → β) {ν : α → List String} {items : List α}
    (hitem : ∀ a, (∀ x ∈ ν a, f x = g x) → ρ f a = ρ g a)
    (h : ∀ x ∈ items.flatMap ν, f x = g x) : items.map (ρ f) = items.map (ρ g) :=
  List.map_congr_left fun a ha =>
    hitem a fun x hx => h x (List.mem_flatMap.mpr ⟨a, ha, hx⟩)

theorem flatMap_names_map {ρ : α → β} {ν : α → List String} {ν' : β → List String}
    (hitem : ∀ a, ν' (ρ a) = (ν a).map f) (items : List α) :
    (items.map ρ).flatMap ν' = (items.flatMap ν).map f := by
  rw [List.flatMap_map, List.map_flatMap]
  exact List.flatMap_congr fun a _ => hitem a

namespace Table

theorem rename_congr (φ : (String → String) → α → β) {ν : α → List String} {t : Table α}
    (hitem : ∀ a, (∀ x ∈ ν a, f x = g x) → φ f a = φ g a)
    (h : ∀ x ∈ t.names ν, f x = g x) : t.rename f (φ f) = t.rename g (φ g) := by
  refine map_rename_congr (fun f entry => (f entry.1, φ f entry.2)) ?_ h
  intro entry hentry
  rw [hentry entry.1 List.mem_cons_self,
    hitem entry.2 fun x hx => hentry x (List.mem_cons_of_mem _ hx)]

theorem names_rename {φ : α → β} {ν : α → List String} {ν' : β → List String}
    (hitem : ∀ a, ν' (φ a) = (ν a).map f) {t : Table α} :
    (t.rename f φ).names ν' = (t.names ν).map f := by
  refine flatMap_names_map ?_ t
  intro entry
  rw [List.map_cons, hitem]

end Table

/-! ## Routines -/

/-- A parameter with its names renamed. -/
def Parameter.rename (f : String → String) (p : Parameter) : Parameter := ⟨f p.name, f p.type⟩

/-- The names in a parameter. -/
def Parameter.names (p : Parameter) : List String := [p.name, p.type]

theorem Parameter.rename_congr {p : Parameter} (h : ∀ x ∈ p.names, f x = g x) :
    p.rename f = p.rename g := by
  simp_all [rename, names]

theorem Parameter.names_rename (p : Parameter) : (p.rename f).names = p.names.map f := rfl

theorem Parameter.ofNodes_rename (nodes : List Node) :
    Parameter.ofNodes (nodes.map (Node.rename f)) =
      Fault.within f (List.map (Parameter.rename f)) (Parameter.ofNodes nodes) := by
  induction nodes with
  | nil => rfl
  | cons node rest ih =>
      simp only [List.map_cons, Parameter.ofNodes, ih, Node.identifierPart_rename,
        Node.typePart_rename]
      cases node.identifierPart with
      | error fault => rfl
      | ok name =>
          simp only [Fault.within, bind, Except.bind, Node.namePart_rename]
          cases name.namePart with
          | error fault => rfl
          | ok spelled =>
              cases node.typePart with
              | error fault => rfl
              | ok type =>
                  simp only [Fault.within, Node.namePart_rename]
                  cases type.namePart with
                  | error fault => rfl
                  | ok typeSpelled => cases Parameter.ofNodes rest <;> rfl

namespace Routine

/-- A routine with its names renamed, also in its body. -/
def rename (f : String → String) (r : Routine) : Routine :=
  ⟨f r.name, r.parameters.map (List.map (Parameter.rename f)), r.body.rename f⟩

/-- The names in a routine. -/
def names (r : Routine) : List String :=
  r.name :: ((r.parameters.getD []).flatMap Parameter.names ++ r.body.names)

theorem parameters_rename (r : Routine) :
    (r.rename f).parameters.getD [] = (r.parameters.getD []).map (Parameter.rename f) := by
  cases hp : r.parameters <;> simp [rename, hp]

theorem rename_congr {r : Routine} (h : ∀ x ∈ r.names, f x = g x) : r.rename f = r.rename g := by
  obtain ⟨name, parameters, body⟩ := r
  simp only [names, List.mem_cons, List.mem_append] at h
  have hname : f name = g name := h name (.inl rfl)
  have hbody : body.rename f = body.rename g :=
    Node.rename_congr fun x hx => h x (.inr (.inr hx))
  have hparameters : parameters.map (List.map (Parameter.rename f)) =
      parameters.map (List.map (Parameter.rename g)) := by
    cases parameters with
    | none => rfl
    | some ps =>
        exact congrArg some (map_rename_congr Parameter.rename (fun p => Parameter.rename_congr)
          fun x hx => h x (.inr (.inl hx)))
  simp only [rename, hname, hbody, hparameters]

theorem names_rename (r : Routine) : (r.rename f).names = r.names.map f := by
  rw [names, parameters_rename, names, List.map_cons, List.map_append,
    flatMap_names_map Parameter.names_rename]
  show f r.name :: (_ ++ (r.body.rename f).names) = _
  rw [Node.names_rename]

end Routine

namespace Function

/-- A function with its names renamed, also in its body. -/
def rename (f : String → String) (h : Function) : Function :=
  ⟨h.toRoutine.rename f, f h.giveType⟩

/-- The names in a function. -/
def names (h : Function) : List String := h.giveType :: h.toRoutine.names

theorem rename_congr {h : Function} (hnames : ∀ x ∈ h.names, f x = g x) :
    h.rename f = h.rename g := by
  have hroutine : h.toRoutine.rename f = h.toRoutine.rename g :=
    Routine.rename_congr fun x hx => hnames x (List.mem_cons_of_mem _ hx)
  have htype : f h.giveType = g h.giveType := hnames _ List.mem_cons_self
  rw [rename, rename, hroutine, htype]

theorem names_rename (h : Function) : (h.rename f).names = h.names.map f := by
  rw [names, names, List.map_cons, ← Routine.names_rename]
  rfl

end Function

/-! ## Machines -/

namespace Record

/-- A record with its names renamed; the record of a program is not named for anything in it. -/
def rename (f : String → String) (r : Record) : Record :=
  ⟨if r.kind = .program then r.name else f r.name, r.kind, r.level, r.members.rename f id⟩

/-- The names in a record. -/
def names (r : Record) : List String :=
  (if r.kind = .program then [] else [r.name]) ++ r.members.names fun _ => []

theorem rename_congr {r : Record} (h : ∀ x ∈ r.names, f x = g x) : r.rename f = r.rename g := by
  have hmembers : r.members.rename f id = r.members.rename g id :=
    Table.rename_congr (fun _ => id) (fun _ _ => rfl)
      fun x hx => h x (List.mem_append_right _ hx)
  have hname : (if r.kind = .program then r.name else f r.name) =
      if r.kind = .program then r.name else g r.name := by
    by_cases hkind : r.kind = .program
    · rw [if_pos hkind, if_pos hkind]
    · rw [if_neg hkind, if_neg hkind]
      exact h r.name (List.mem_append_left _ (by simp [hkind]))
  rw [rename, rename, hmembers, hname]

theorem names_rename (r : Record) : (r.rename f).names = r.names.map f := by
  have hmembers : (r.members.rename f id).names (fun _ => []) =
      (r.members.names fun _ => []).map f := by
    refine Table.names_rename ?_
    exact fun _ => rfl
  rw [names, names, List.map_append, ← hmembers]
  by_cases hkind : r.kind = .program <;> simp [rename, hkind]

end Record

namespace Event

/-- An event with its names renamed; what is shown is shown. -/
def rename (f : String → String) : Event → Event
  | .pushed r => .pushed (r.rename f)
  | .popped r => .popped (r.rename f)
  | .shown line => .shown line

/-- The names in an event. -/
def names : Event → List String
  | .pushed r | .popped r => r.names
  | .shown _ => []

theorem rename_congr {e : Event} (h : ∀ x ∈ e.names, f x = g x) : e.rename f = e.rename g := by
  cases e with
  | pushed r => exact congrArg pushed (Record.rename_congr h)
  | popped r => exact congrArg popped (Record.rename_congr h)
  | shown line => rfl

theorem names_rename (e : Event) : (e.rename f).names = e.names.map f := by
  cases e with
  | pushed r | popped r => exact r.names_rename
  | shown line => rfl

end Event

namespace Machine

/-- A machine with its names renamed. -/
def rename (f : String → String) (m : Machine) : Machine :=
  ⟨m.stack.map (Record.rename f), m.functions.rename f (Function.rename f),
    m.procedures.rename f (Routine.rename f), m.history.map (Event.rename f)⟩

/-- The names in a machine. -/
def names (m : Machine) : List String :=
  m.stack.flatMap Record.names ++ (m.functions.names Function.names ++
    (m.procedures.names Routine.names ++ m.history.flatMap Event.names))

theorem rename_congr {m : Machine} (h : ∀ x ∈ m.names, f x = g x) : m.rename f = m.rename g := by
  simp only [names, List.mem_append] at h
  have hstack := map_rename_congr Record.rename (fun r => Record.rename_congr)
    fun x hx => h x (.inl hx)
  have hfunctions := Table.rename_congr Function.rename (fun p => Function.rename_congr)
    fun x hx => h x (.inr (.inl hx))
  have hprocedures := Table.rename_congr Routine.rename (fun p => Routine.rename_congr)
    fun x hx => h x (.inr (.inr (.inl hx)))
  have hhistory := map_rename_congr Event.rename (fun e => Event.rename_congr)
    fun x hx => h x (.inr (.inr (.inr hx)))
  rw [rename, rename, hstack, hfunctions, hprocedures, hhistory]

theorem names_rename (m : Machine) : (m.rename f).names = m.names.map f := by
  simp only [names, rename, List.map_append, flatMap_names_map Record.names_rename,
    Table.names_rename Function.names_rename, Table.names_rename Routine.names_rename,
    flatMap_names_map Event.names_rename]

/-- What is shown does not depend on names. -/
theorem output_rename (m : Machine) : (m.rename f).output = m.output := by
  have hlines : ∀ e, lineOf (e.rename f) = lineOf e := by
    intro e
    cases e <;> rfl
  have hevents : (m.rename f).events = m.events.map (Event.rename f) := List.map_reverse.symm
  rw [output, output, hevents, List.filterMap_map]
  congr 3
  exact funext hlines

end Machine

/-! ## Runs -/

namespace Exit

/-- An exit with its names renamed. -/
def rename (f : String → String) : Exit → Exit
  | .fault cause => .fault (cause.rename f)
  | exit => exit

/-- The names in an exit. -/
def names : Exit → List String
  | .fault cause => cause.names
  | _ => []

theorem rename_congr {e : Exit} (h : ∀ x ∈ e.names, f x = g x) : e.rename f = e.rename g := by
  cases e with
  | fault cause => exact congrArg Exit.fault (Fault.rename_congr h)
  | _ => rfl

theorem names_rename (e : Exit) : (e.rename f).names = e.names.map f := by
  cases e with
  | fault cause => exact cause.names_rename
  | _ => rfl

/-- The code of an error of the language that a run ends with. -/
def code : Exit → Option Code
  | .fault cause => cause.coded?.map Prod.fst
  | _ => none

theorem code_rename (e : Exit) : (e.rename f).code = e.code := by
  cases e with
  | fault cause => exact cause.code_rename
  | _ => rfl

end Exit

namespace Run

/-- A run with its names renamed. -/
def rename (f : String → String) (r : Run) : Run := ⟨r.exit.map (Exit.rename f), r.machine.rename f⟩

/-- The names in a run. -/
def names (r : Run) : List String := r.exit.toList.flatMap Exit.names ++ r.machine.names

/-- Renaming depends only on the names that occur. -/
theorem rename_congr {r : Run} (h : ∀ x ∈ r.names, f x = g x) : r.rename f = r.rename g := by
  obtain ⟨exit, m⟩ := r
  have hmachine : m.rename f = m.rename g :=
    Machine.rename_congr fun x hx => h x (List.mem_append_right _ hx)
  have hexit : exit.map (Exit.rename f) = exit.map (Exit.rename g) := by
    cases exit with
    | none => rfl
    | some e =>
        refine congrArg some (Exit.rename_congr fun x hx => h x (List.mem_append_left _ ?_))
        simpa using hx
  simp only [rename, hmachine, hexit]

/-- The names that occur behind a renaming are the renamed ones. -/
theorem names_rename (r : Run) : (r.rename f).names = r.names.map f := by
  obtain ⟨exit, m⟩ := r
  cases exit with
  | none => simp [names, rename, Machine.names_rename]
  | some e => simp [names, rename, Machine.names_rename, Exit.names_rename]

end Run

end BraceScript
