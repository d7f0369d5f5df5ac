import Mathlib
import BraceScript.Proofs.Endings
import BraceScript.Proofs.Numerals
import BraceScript.Proofs.RoundTrip
import BraceScript.Workload.Sample

/-! # Recursion — the sample recursion computes Fibonacci's sequence

    The text of the sample is the same for every place in the sequence, up to one numeral.  What is
    before the numeral and behind it is read as it stands; the numeral is read as a whole, because a
    parenthesis is on both sides of it.  The function is followed by induction on its argument: each
    call finds the number in its own record, and leaves the records below as it found them.

    * `Sample.words_recursion`, `Sample.parse_recursion`: the words of the text, and its tree;
    * `Sample.analyze_recursion`: the tree is accepted;
    * `Sample.computes`: a call comes to the number at the place of its argument;
    * `Sample.recursion_computes`: so does the program, which shows it, whatever blanks, comments
      and blank lines are between its words. -/

namespace BraceScript

open Number (digitChars digitText maxDigits)

/-! ## The words of a text, part by part -/

namespace Cursor

theorem ofString_rest (source : String) : (ofString source).rest = source.toList := rfl

/-- The words of a text are those of the readings up to a place, and those behind it. -/
theorem words_readAll (k : Nat) {c : Cursor} (hfailure : (readAll k c).2.1 = none)
    (hend : ∀ w ∈ (readAll k c).1.map Token.word, w.kind ≠ .endOfFile) :
    c.words = ((readAll k c).1.map Token.word ++ (readAll k c).2.2.words.1,
      (readAll k c).2.2.words.2) := by
  induction k generalizing c with
  | zero => rfl
  | succ k ih =>
      rcases hnext : c.next with ⟨e | t, after⟩
      · have hread : readAll (k + 1) c = ([], some e, after) := by rw [readAll, hnext]
        rw [hread] at hfailure
        cases hfailure
      · by_cases hkind : t.kind = .endOfFile
        · have hread : readAll (k + 1) c = ([t], none, after) := by
            rw [readAll, hnext]
            simp only [if_pos hkind]
          rw [hread] at hend
          exact absurd hkind (hend t.word List.mem_cons_self)
        · have hread : readAll (k + 1) c = (t :: (readAll k after).1, (readAll k after).2) := by
            rw [readAll, hnext]
            simp only [if_neg hkind]
          rw [hread] at hfailure hend ⊢
          obtain ⟨-, hrest⟩ := List.forall_mem_cons.mp hend
          rw [words_cons hnext hkind, ih hfailure hrest]
          rfl

/-- A word that is read is the first one, and the others are behind it. -/
theorem words_of_readsHere {c : Cursor} {w : Word} {rest : List Char} (h : c.ReadsHere w rest)
    (hw : w.kind ≠ .endOfFile) : ∃ c' : Cursor, c'.rest = rest ∧
      c.words = (w :: c'.words.1, c'.words.2) := by
  obtain ⟨⟨first, more, hfirst, hblank⟩, t, c', hread, rfl, hrest⟩ := h
  exact ⟨c', hrest, words_cons ((next_here hfirst hblank).trans hread) hw⟩

/-- No sign of two characters begins with a parenthesis. -/
theorem pairSign_parenthesis {c : Cursor} {rest : List Char} (hc : c.rest = '(' :: rest) :
    c.pairSign = (none, c) := by
  have hnone : ∀ b, Kind.ofPair? '(' b = none := by
    intro b
    have hfirst : ∀ entry ∈ Kind.pairSigns, entry.1.toList.head? ≠ some '(' := by decide +kernel
    rw [Kind.ofPair?, List.lookup_eq_none_iff]
    intro entry hentry
    rw [bne_iff_ne]
    intro heq
    refine hfirst entry hentry ?_
    rw [← heq, String.toList_ofList]
    rfl
  rw [pairSign, hc]
  cases rest with
  | nil => rfl
  | cons b more => simp only [hnone b]

/-- The digits before a parenthesis are a number. -/
theorem numberLexeme_digits {cs : List Char} (h : ∀ c ∈ cs, isDigit c = true) (rest : List Char) :
    numberLexeme (cs ++ ')' :: rest) = cs := by
  have htake : (cs ++ ')' :: rest).takeWhile isDigit = cs := by
    rw [List.takeWhile_append_of_pos h]
    exact List.append_nil cs
  have hdrop : (cs ++ ')' :: rest).dropWhile isDigit = ')' :: rest := by
    rw [List.dropWhile_append_of_pos h]
    rfl
  rw [numberLexeme, htake, hdrop]
  rfl

end Cursor

namespace Sample

/-! ## The text -/

/-- The text up to the numeral and its parenthesis. -/
def opening : String :=
  lines [
    "\x7b",
    "    func fib(number n) -> number \x7b",
    "        if n <= 1 \x7b give n \x7d",
    "        give fib(n - 1) + fib(n - 2)",
    "    \x7d",
    "    let number r = fib"]

/-- The text behind the numeral. -/
def closing : String := ")\n    show r\n\x7d"

theorem toList_recursion (n : Nat) : (recursion n).toList =
    opening.toList ++ '(' :: ((digitText n).toList ++ closing.toList) := by
  have hinteger : integer n = digitText n := by
    rw [integer, if_neg (by omega)]
    rfl
  rw [recursion, hinteger]
  simp only [opening, closing, lines, ne_eq, List.cons_ne_nil, not_false_eq_true,
    String.intercalate_cons_of_ne_nil, String.intercalate_singleton, String.toList_append,
    List.append_assoc]
  simp

/-- The test of the function, with the number itself for the places up to one. -/
def recursionTest : Node :=
  .ifElse (.comparison (.identifier "n") "<=" (.number "1")) (.block [.give (.identifier "n")]) []
    .absent

/-- The sum of the two numbers before. -/
def recursionSum : Node :=
  .give (.binary
    (.functionCall (.identifier "fib") [.binary (.identifier "n") "-" (.number "1")]) "+"
    (.functionCall (.identifier "fib") [.binary (.identifier "n") "-" (.number "2")]))

/-- What the function of the recursion does. -/
def recursionBody : Node := .block [recursionTest, recursionSum]

/-- The function of the recursion. -/
def recursionFunction : Node :=
  .functionDecl (.identifier "fib") [.parameter (.identifier "n") (.typeName "number")]
    (.typeName "number") recursionBody

/-- The call of the function, with the numeral that is written in it. -/
def recursionCall (numeral : String) : Node :=
  .variableDecl (.typeName "number") [.identifier "r"]
    [.functionCall (.identifier "fib") [.number numeral]]

/-- What the recursion consists of. -/
def recursionStatements (numeral : String) : List Node :=
  [recursionFunction, recursionCall numeral, .display (.identifier "r")]

/-- The tree of the recursion. -/
def recursionTree (numeral : String) : Node := .program (.block (recursionStatements numeral))

/-! ### Its words -/

/-- The words of the test, whose block is on one line. -/
def testWords : List Word :=
  Word.sign .ifWord :: ((Node.comparison (.identifier "n") "<=" (.number "1")).words ++
    (Word.sign .leftBrace :: ((Node.give (.identifier "n")).words ++ [Word.sign .rightBrace])))

/-- The words of the function. -/
def functionWords : List Word :=
  Word.sign .funcWord :: ((Node.identifier "fib").words ++ Word.sign .leftParenthesis ::
    (Node.commaWords [.parameter (.identifier "n") (.typeName "number")] ++
      Word.sign .rightParenthesis :: Word.sign .arrow :: ((Node.typeName "number").words ++
        Parser.blockWords [testWords, recursionSum.words])))

/-- The words of the recursion. -/
def recursionWords (numeral : String) : List Word :=
  Parser.blockWords
    [functionWords, (recursionCall numeral).words, (Node.display (.identifier "r")).words]

set_option maxRecDepth 4000 in
/-- The opening is read word by word, whatever is behind its parenthesis. -/
theorem readAll_opening {c : Cursor} {rest : List Char}
    (hc : c.rest = opening.toList ++ '(' :: rest) :
    ((Cursor.readAll 43 c).1.map Token.word, (Cursor.readAll 43 c).2.1,
      (Cursor.readAll 43 c).2.2.rest) = ((recursionWords "").take 43, none, '(' :: rest) := by
  obtain ⟨source, position, line, column, ahead⟩ := c
  dsimp only at hc
  subst hc
  cbv

theorem words_closing {c : Cursor} (hc : c.rest = closing.toList) :
    c.words = ((recursionWords "").drop 45 ++ [Word.last], none) := by
  obtain ⟨source, position, line, column, ahead⟩ := c
  dsimp only at hc
  subst hc
  cbv

theorem recursionWords_eq (numeral : String) : recursionWords numeral =
    (recursionWords "").take 43 ++ Word.sign .leftParenthesis ::
      ⟨.numberLiteral, some numeral⟩ :: (recursionWords "").drop 45 := by cbv

theorem words_recursion (n : Nat) : (Cursor.ofString (recursion n)).words =
    (recursionWords (digitText n) ++ [Word.last], none) := by
  have hrest : (Cursor.ofString (recursion n)).rest =
      opening.toList ++ '(' :: ((digitText n).toList ++ closing.toList) := by
    rw [Cursor.ofString_rest, toList_recursion]
  generalize Cursor.ofString (recursion n) = c at hrest ⊢
  have hread := readAll_opening hrest
  simp only [Prod.mk.injEq] at hread
  obtain ⟨hwords, hfailure, hbehind⟩ := hread
  have hend : ∀ w ∈ (recursionWords "").take 43, w.kind ≠ .endOfFile := by decide +kernel
  rw [Cursor.words_readAll 43 hfailure (by rwa [hwords]), hwords]
  generalize (Cursor.readAll 43 c).2.2 = c₀ at hbehind ⊢
  -- the parenthesis, the numeral and the rest are read one after the other
  obtain ⟨c₁, hc₁, hwords₁⟩ := Cursor.words_of_readsHere (Cursor.readsHere_alone rfl rfl hbehind
    (Cursor.pairSign_parenthesis hbehind)) (by decide : Kind.leftParenthesis ≠ .endOfFile)
  have hlexeme : Cursor.numberLexeme c₁.rest = (digitText n).toList := by
    rw [hc₁]
    exact Cursor.numberLexeme_digits (isDigit_digitText n) _
  obtain ⟨c₂, hc₂, hwords₂⟩ := Cursor.words_of_readsHere (Cursor.readsHere_numeral
    (isNumeral_digitText n) hc₁ hlexeme) (by decide : Kind.numberLiteral ≠ .endOfFile)
  rw [hwords₁, hwords₂, words_closing hc₂, recursionWords_eq (digitText n)]
  simp [Word.sign]

/-! ## The tree -/

/-- The name of the function, its parameter and the variable are names. -/
theorem shaped_name : ∀ name ∈ ["fib", "n", "r"], Shaped .name (.identifier name) := by
  intro name hname
  have hwords : ∀ name ∈ ["fib", "n", "r"], IsWord name ∧ IsWordy name.toList := by decide
  exact .name (hwords name hname).1 (hwords name hname).2

/-- A call of the function with an arithmetic argument. -/
theorem shaped_call {argument : Node} (h : Shaped .arithmetic argument) :
    Shaped .arithmetic (.functionCall (.identifier "fib") [argument]) :=
  .functionCall (shaped_name _ (by simp)) (List.forall_mem_singleton.mpr (.ofArithmetic h))

theorem shaped_sum : Shaped .statement recursionSum := by
  have hcall : ∀ numeral ∈ ["1", "2"], Shaped .arithmetic
      (.functionCall (.identifier "fib") [.binary (.identifier "n") "-" (.number numeral)]) := by
    intro numeral hnumeral
    have hdigits : ∀ numeral ∈ ["1", "2"],
        numeral.toList ≠ [] ∧ numeral.toList.all isDigit = true := by decide
    refine shaped_call (.binary (k := .minus) rfl (.identifier (shaped_name _ (by simp))) ?_)
    exact .number (.of_digits (hdigits numeral hnumeral).1 (hdigits numeral hnumeral).2)
  exact .give (.ofArithmetic (.binary (k := .plus) rfl (hcall "1" (by simp)) (hcall "2" (by simp))))

/-- The test is read from its line. -/
theorem readsLine_test : Parser.ReadsLine (testWords, recursionTest) := by
  have hn : Shaped .arithmetic (.identifier "n") := .identifier (shaped_name _ (by simp))
  have hcondition : Shaped .boolean (.comparison (.identifier "n") "<=" (.number "1")) :=
    .comparison (k := .lessEqual) rfl hn (.number (.of_digits (by decide) rfl)) (by decide)
  refine ⟨rfl, fun rest => ?_⟩
  rw [testWords, List.cons_append, List.append_assoc]
  refine Parser.leads_ifElse rest (Parser.Shaped.reads hcondition) (fun _ => rfl) (fun rest => ?_)
    (List.forall_mem_nil _) (List.forall_mem_nil _) .noAlternative
    Parser.reads_noAlternative
  rw [List.cons_append, List.append_assoc]
  exact Parser.leads_line rest rfl
    (Parser.leads_give _ (.ofArithmetic hn) (Parser.Shaped.reads (.ofArithmetic hn)) rfl)

/-- The function is read from its lines. -/
theorem readsLine_function : Parser.ReadsLine (functionWords, recursionFunction) := by
  have htype : Shaped .type (.typeName "number") := .type (k := .numberType) rfl
  have hparameter : Shaped .parameter (.parameter (.identifier "n") (.typeName "number")) :=
    .parameter htype (shaped_name _ (by simp))
  have hbody : ∀ rest, Parser.Leads (Parser.free Parser.block)
      (Parser.blockWords [testWords, recursionSum.words] ++ rest) (pure recursionBody) rest := by
    intro rest
    refine Parser.leads_block rest
      [(testWords, recursionTest), (recursionSum.words, recursionSum)] ?_
    refine List.forall_mem_cons.mpr ⟨readsLine_test, List.forall_mem_singleton.mpr ?_⟩
    exact ⟨rfl, Parser.Shaped.reads shaped_sum⟩
  refine ⟨rfl, fun rest => ?_⟩
  rw [functionWords]
  simp only [List.cons_append, List.append_assoc]
  exact Parser.leads_functionDecl _ (Parser.Shaped.reads (shaped_name _ (by simp)))
    (List.forall_mem_singleton.mpr (Parser.Shaped.reads hparameter))
    (List.forall_mem_singleton.mpr hparameter) (Parser.Shaped.reads htype) (hbody _)

/-- The call is read from its line, with any number for its numeral. -/
theorem shaped_recursionCall {numeral : String} (h : IsNumeral numeral.toList) :
    Shaped .statement (recursionCall numeral) :=
  .variableDecl (.type (k := .numberType) rfl) (List.cons_ne_nil _ _)
    (List.forall_mem_singleton.mpr (shaped_name _ (by simp)))
    (List.forall_mem_singleton.mpr (.ofArithmetic (shaped_call (.number h)))) (.inr rfl)

theorem parse_recursion (n : Nat) : parse (recursion n) = .ok (recursionTree (digitText n)) := by
  have hcall := shaped_recursionCall (isNumeral_digitText n)
  have hshow : Shaped .statement (.display (.identifier "r")) :=
    .display (.ofArithmetic (.identifier (shaped_name _ (by simp))))
  refine Parser.parse_of_leads (Parser.leads_program ?_) (words_recursion n)
  refine Parser.leads_block _ [(functionWords, recursionFunction),
    ((recursionCall (digitText n)).words, recursionCall (digitText n)),
    ((Node.display (.identifier "r")).words, .display (.identifier "r"))] ?_
  refine List.forall_mem_cons.mpr ⟨readsLine_function, List.forall_mem_cons.mpr
    ⟨⟨rfl, Parser.Shaped.reads hcall⟩, List.forall_mem_singleton.mpr ?_⟩⟩
  exact ⟨rfl, Parser.Shaped.reads hshow⟩

/-- Every name of the tree is declared before it is used. -/
theorem analyze_recursion (numeral : String) : (analyze (recursionTree numeral)).1 = none := by cbv

/-! ## The run -/

/-- The function that the recursion declares. -/
def fibonacci : Function := ⟨⟨"fib", some [⟨"n", "number"⟩], recursionBody⟩, "number"⟩

/-- A machine with more to be seen of its run. -/
abbrev later (m : Machine) (seen : List Event) : Machine := { m with history := seen ++ m.history }

/-- Events that show nothing. -/
def Silent (seen : List Event) : Prop := ∀ e ∈ seen, Machine.lineOf e = none

theorem minus_natural (j i : Nat) :
    (Value.int (j + i : Nat)).binaryBy "-" (.int i) = .ok (.int j) := by
  show Except.ok (Value.int (((j + i : Nat) : Int) - (i : Int))) = _
  rw [Nat.cast_add, add_sub_cancel_right]

theorem plus_natural (j i : Nat) :
    (Value.int j).binaryBy "+" (.int i) = .ok (.int (j + i : Nat)) := rfl

theorem atMostOne_natural (k : Nat) :
    (Value.int k).compareBy "<=" (.int 1) = .ok (decide (k ≤ 1)) := by
  show Except.ok (compare (k : Int) 1 != .gt) = _
  have hcompare : compare (k : Int) 1 = .gt ↔ ¬k ≤ 1 := by
    rw [compare_gt_iff_gt]
    omega
  congr 1
  rw [Bool.eq_iff_iff, bne_iff_ne, decide_eq_true_eq, ne_eq, hcompare, not_not]

theorem Silent.append {seen more : List Event} (hseen : Silent seen) (hmore : Silent more) :
    Silent (seen ++ more) := List.forall_mem_append.mpr ⟨hseen, hmore⟩

/-- A call of the function comes to Fibonacci's number at the place of its argument.  It leaves the
    machine as it was, but for the records that came and went. -/
def Computes (k : Nat) : Prop :=
  ∀ {m : Machine} {caller : Record} {rest : CallStack} {argument : Node},
    m.stack = caller :: rest → m.functions.get? "fib" = some fibonacci →
    Action.Ends (Action.eval argument) m (.ok (.int k) m) →
    ∃ seen, Silent seen ∧ Action.Ends (Action.eval (.functionCall (.identifier "fib") [argument])) m
      (.ok (.int (Nat.fib k)) (later m seen))

theorem ends_difference {m : Machine} {r : Record} {rest : CallStack} (hs : m.stack = r :: rest)
    {j i : Nat} (hn : r.get? "n" = some (.int (j + i : Nat))) {numeral : String}
    (hnumeral : Eval.numberValue numeral = .ok (.int i)) :
    Action.Ends (Action.eval (.binary (.identifier "n") "-" (.number numeral))) m
      (.ok (.int j) m) := .binary (.name hs hn) (.number hnumeral) (minus_natural j i)

/-- The body gives the number, if the calls in it come to theirs. -/
theorem ends_body {k : Nat} (hcalls : ∀ j < k, Computes j) {m : Machine} {r : Record}
    {rest : CallStack} (hs : m.stack = r :: rest) (hn : r.get? "n" = some (.int k))
    (hfound : m.functions.get? "fib" = some fibonacci) :
    ∃ seen, Silent seen ∧ Action.Ends (Action.eval recursionBody) m
      (.ok (.given (.int (Nat.fib k))) (later m seen)) := by
  have hone : Eval.numberValue "1" = .ok (.int 1) := by cbv
  have htwo : Eval.numberValue "2" = .ok (.int 2) := by cbv
  have htest := Action.Ends.comparison (.name hs hn) (.number hone) (atMostOne_natural k)
  by_cases hk : k ≤ 1
  · rw [decide_eq_true hk] at htest
    have hfib : Nat.fib k = k := by interval_cases k <;> rfl
    refine ⟨[], List.forall_mem_nil _, ?_⟩
    rw [hfib]
    exact .eval (.block_given (.ifTrue htest (.eval (.block_given (.give rfl (.name hs hn))))))
  · rw [decide_eq_false hk] at htest
    obtain ⟨j, rfl⟩ : ∃ j, k = j + 2 := ⟨k - 2, by omega⟩
    obtain ⟨seen₁, hsilent₁, hfirst⟩ :=
      hcalls (j + 1) (by omega) hs hfound (ends_difference (i := 1) hs hn hone)
    have hs₁ : (later m seen₁).stack = r :: rest := hs
    obtain ⟨seen₂, hsilent₂, hsecond⟩ :=
      hcalls j (by omega) hs₁ hfound (ends_difference (i := 2) hs₁ hn htwo)
    have hsum := hfirst.binary hsecond (plus_natural (Nat.fib (j + 1)) (Nat.fib j))
    rw [← Nat.add_comm (Nat.fib j), ← Nat.fib_add_two] at hsum
    refine ⟨seen₂ ++ seen₁, hsilent₂.append hsilent₁, ?_⟩
    rw [later, List.append_assoc]
    exact .eval (.block_next (.ifFalse htest) (.block_given (.give rfl hsum)))

theorem computes (k : Nat) : Computes k := by
  induction k using Nat.strong_induction_on with
  | _ k ih =>
      intro m caller rest argument hs hfound hargument
      let callee := Eval.calleeRecord .function fibonacci.toRoutine [.int k] caller
      have hn : callee.get? "n" = some (.int k) := Table.get?_insert_self _ _ _
      have hs₁ : (m.called .function fibonacci.toRoutine [.int k] caller).stack =
        callee :: m.stack := rfl
      obtain ⟨seen, hsilent, hbody⟩ := ends_body ih hs₁ hn hfound
      refine ⟨.popped callee :: (seen ++ [.pushed callee]), ?_, ?_⟩
      · exact List.forall_mem_cons.mpr ⟨rfl, hsilent.append (List.forall_mem_singleton.mpr rfl)⟩
      · have hcall := Action.Ends.call hfound hargument hs hbody rfl rfl
        rw [later, List.cons_append, List.append_assoc]
        exact hcall

/-! ## The program -/

/-- The record of the program when everything is computed. -/
def recursionRecord (n : Nat) : Record := Record.program.set "r" (.int (Nat.fib n))

/-- The machine on which the number is shown, with what was seen before. -/
def recursionMachine (n : Nat) (seen : List Event) : Machine :=
  ⟨[recursionRecord n], [("fib", fibonacci)], [], seen ++ [.pushed Record.program]⟩

/-- The program declares the function, calls it, and keeps the number that the call comes to; then
    it ends as showing the number does. -/
theorem ends_statements {n : Nat} (hn : (digitChars n).length ≤ maxDigits) :
    ∃ seen, Silent seen ∧ ∀ e,
      Action.Ends (Action.block [.display (.identifier "r")]) (recursionMachine n seen) e →
      Action.Ends (Action.eval (.block (recursionStatements (digitText n)))) Machine.started e := by
  let declared : Machine := ⟨[Record.program], [("fib", fibonacci)], [], [.pushed Record.program]⟩
  have hdeclare : Action.Ends (Action.eval recursionFunction) Machine.started
      (.ok .nothing declared) := .eval ⟨0, fun _ _ => rfl⟩
  have hnumeral : Action.Ends (Action.eval (.number (digitText n))) declared
      (.ok (.int n) declared) := .number (Eval.numberValue_digitText hn)
  obtain ⟨seen, hsilent, hcall⟩ := computes n rfl rfl hnumeral
  refine ⟨seen, hsilent, fun e hshow => ?_⟩
  exact .eval (.block_next hdeclare (.block_next (.declare rfl hcall rfl) hshow))

/-- What is shown is shown behind the silent events. -/
theorem Silent.output {seen : List Event} (h : Silent seen) {m : Machine} (shown : List Event)
    (hm : m.history = shown ++ (seen ++ [.pushed Record.program])) :
    m.output = String.join ((shown.reverse.filterMap Machine.lineOf).map (· ++ "\n")) := by
  have hsilent : (seen ++ [Event.pushed Record.program]).filterMap Machine.lineOf = [] := by
    rw [List.filterMap_append, List.filterMap_eq_nil_iff.mpr h]
    rfl
  rw [Machine.output, Machine.events, hm, List.reverse_append, List.filterMap_append,
    List.filterMap_reverse, hsilent]
  rfl

/-- The sample recursion is right at every place that can be written, however it is laid out: the
    text may be any that has the stream of the sample.  It is parsed and its tree accepted, and the
    program, run as deep as it needs, sets its variable to Fibonacci's number at that place.  If the
    number can be written, the program shows it and ends with an empty stack; otherwise it ends with
    that failure. -/
theorem recursion_computes (n : Nat) (hn : (digitChars n).length ≤ maxDigits) (source : String)
    (hsource : stream source = stream (recursion n)) :
    ∃ tree run, parse source = .ok tree ∧ (analyze tree).1 = none ∧
      (∃ enough, ∀ d, enough ≤ d → interpret d tree = run) ∧
      if (digitChars (Nat.fib n)).length ≤ maxDigits then
        run.exit = none ∧ run.machine.stack = [] ∧
          run.machine.lastPopped = some ⟨"program", .program, 1, [("r", .int (Nat.fib n))]⟩ ∧
          run.machine.output = digitText (Nat.fib n) ++ "\n"
      else
        run.exit = some (.fault .tooManyDigitsToWrite) ∧
          run.machine.stack = [⟨"program", .program, 1, [("r", .int (Nat.fib n))]⟩] ∧
          run.machine.output = "" := by
  obtain ⟨seen, hsilent, hrun⟩ := ends_statements hn
  have hparse := parse_ok_of_stream hsource.symm (parse_recursion n)
  have hr : Action.Ends (Action.eval (.identifier "r")) (recursionMachine n seen)
      (.ok (.int (Nat.fib n)) (recursionMachine n seen)) := .name rfl rfl
  have hline := Value.text?_natural (Nat.fib n)
  by_cases hfib : (digitChars (Nat.fib n)).length ≤ maxDigits
  · rw [if_pos hfib] at hline
    have hbody := hrun _ (.block_next (.display hr hline) .pure)
    refine ⟨_, _, hparse, analyze_recursion _, hbody.interpret rfl, ?_⟩
    rw [if_pos hfib]
    refine ⟨rfl, rfl, rfl, (hsilent.output [.popped (recursionRecord n), .shown _] rfl).trans ?_⟩
    exact String.empty_append
  · rw [if_neg hfib] at hline
    have hbody := hrun _ (.block_cut (.display_cut hr hline))
    refine ⟨_, _, hparse, analyze_recursion _, hbody.interpret_cut, ?_⟩
    rw [if_neg hfib]
    exact ⟨rfl, rfl, hsilent.output [] rfl⟩

/-- The tenth number, with its line end: of the sample itself, and of a denser text. -/
theorem recursion_computes_tenth :
    (digitChars 10).length ≤ maxDigits ∧ ∀ source ∈ [recursion 10,
        "\x7b\nfunc fib(number n)->number\x7b\nif n<=1\x7bgive n\x7d # the first two\n\n"
          ++ "give fib(n-1)+fib(n-2)\n\x7d\nlet number r=fib(10)\nshow r\n\x7d"],
      stream source = stream (recursion 10) ∧ ∃ tree run, parse source = .ok tree ∧
        (analyze tree).1 = none ∧ (∃ enough, ∀ d, enough ≤ d → interpret d tree = run) ∧
        run.exit = none ∧ run.machine.stack = [] ∧ run.machine.output = "55\n" := by
  have hten : (digitChars 10).length ≤ maxDigits := by decide
  refine ⟨hten, fun source hsource => ?_⟩
  have hstream : stream source = stream (recursion 10) := by
    rcases List.mem_cons.mp hsource with rfl | hdense
    · rfl
    · obtain rfl := List.mem_singleton.mp hdense
      decide +kernel
  obtain ⟨tree, run, hparse, hanalyze, hruns, hends⟩ := recursion_computes 10 hten source hstream
  have hnumber : Nat.fib 10 = 55 := by decide
  rw [hnumber, if_pos (by decide)] at hends
  obtain ⟨hexit, hstack, -, houtput⟩ := hends
  exact ⟨hstream, tree, run, hparse, hanalyze, hruns, hexit, hstack, houtput⟩

end Sample

end BraceScript
