import Mathlib
import BraceScript.Proofs.Decimals
import BraceScript.Proofs.LiteralNodes
import BraceScript.Proofs.Steps
import BraceScript.Proofs.Tokenization

/-! # Literal values — a token and its node have the same value

    The value of a literal is computed in two places: a token has an accessor for its kind, and the
    evaluator has a rule for the node that is built from the token.  Both start from the lexeme,
    which is known by then to be one that the reader of tokens can come to: a numeral, a quotation
    with its escapes resolved, or a truth value.  So neither can fail, except where an integer has
    more digits than are read.

    * `Text.decoded`: what is written between quotes, with its escapes resolved;
    * `Denotes`: what the characters of a literal stand for;
    * `Accessor`: the four values that a token can be asked for;
    * `Token.Agrees`: a literal token and its node have the value of the characters;
    * `literals_agree`: so it is with every literal token of a text, and the literals of its tree
      are the nodes of these tokens. -/

namespace BraceScript

/-! ## Escapes -/

namespace Text

/-- The characters that are written behind a backslash, and what they stand for. -/
def escapes : List (Char × Char) :=
  [('n', '\n'), ('t', '\t'), ('r', '\r'), (backslash, backslash), (singleQuote, singleQuote),
   (doubleQuote, doubleQuote)]

/-- What is written between quotes, with its escapes resolved; a character that needs no backslash
    loses it all the same. -/
def decoded : List Char → List Char
  | [] => []
  | [c] => [c]
  | c :: d :: cs =>
      if c = backslash then (escapes.lookup d).getD d :: decoded cs else c :: decoded (d :: cs)

theorem decoded_plain {c : Char} (hc : c ≠ backslash) (cs : List Char) :
    decoded (c :: cs) = c :: decoded cs := by
  cases cs with
  | nil => rfl
  | cons d cs => rw [decoded, if_neg hc]

theorem decoded_pair (c : Char) (cs : List Char) :
    decoded (backslash :: c :: cs) = (escapes.lookup c).getD c :: decoded cs := by
  rw [decoded, if_pos rfl]

end Text

theorem unescape_eq (c : Char) : unescape c = (Text.escapes.lookup c).getD c := by
  by_cases hlisted : c ∈ Text.escapes.map Prod.fst
  · have htable : (Text.escapes.map Prod.fst).all
        (fun x => unescape x = (Text.escapes.lookup x).getD x) = true := by decide
    exact of_decide_eq_true (List.all_eq_true.mp htable c hlisted)
  · have hnone : Text.escapes.lookup c = none := by
      refine List.lookup_eq_none_iff.mpr fun entry hentry => bne_iff_ne.mpr ?_
      rintro rfl
      exact hlisted (List.mem_map_of_mem hentry)
    have hplain : c ≠ 'n' ∧ c ≠ 't' ∧ c ≠ 'r' := by
      refine ⟨?_, ?_, ?_⟩ <;>
        · rintro rfl
          exact hlisted (by decide)
    rw [hnone, unescape, if_neg hplain.1, if_neg hplain.2.1, if_neg hplain.2.2]
    rfl

/-- What stands in a string is what is written there, decoded. -/
theorem Escapes.eq_decoded {quote : Char} {raw body : List Char} (h : Escapes quote raw body) :
    body = Text.decoded raw := by
  induction h with
  | nil => rfl
  | plain _ hslash _ _ ih => rw [Text.decoded_plain hslash, ih]
  | pair c _ ih => rw [Text.decoded_pair, unescape_eq, ih]

/-! ## What literals stand for -/

/-- An integer with more digits than are read. -/
def Oversized (cs : List Char) : Prop :=
  (∀ d ∈ cs, isDigit d = true) ∧ Number.maxDigits < cs.length

/-- What the characters of a literal stand for: digits for an integer, digits with a point among
    them for the closest binary64 value, a quotation for what is written between its quotes. -/
inductive Denotes : List Char → Value → Prop
  | integer {cs : List Char} (hne : cs ≠ []) (hdigits : ∀ d ∈ cs, isDigit d = true)
      (hlength : cs.length ≤ Number.maxDigits) : Denotes cs (.int (Number.digitsValue cs))
  | decimal {whole fraction : List Char} (hne : fraction ≠ [])
      (hwhole : ∀ d ∈ whole, isDigit d = true) (hfraction : ∀ d ∈ fraction, isDigit d = true) :
      Denotes (whole ++ '.' :: fraction)
        (.float (Number.floatOfRatio false (Number.digitsValue (whole ++ fraction))
          (10 ^ fraction.length)))
  | quotation {quote : Char} {raw : List Char} (hquote : isQuote quote = true) :
      Denotes (quote :: (raw ++ [quote])) (.text (String.ofList (Text.decoded raw)))
  | truth : Denotes "true".toList (.bool true)
  | falsehood : Denotes "false".toList (.bool false)

/-- The value that a number is. -/
def Number.Numeral.value : Number.Numeral → Value
  | .integer n => .int n
  | .float x => .float x

/-! ## What tokens say -/

/-- The values that a token can be asked for. -/
inductive Accessor where
  | numeric | string | boolean | identifier
  deriving DecidableEq, Repr

namespace Accessor

/-- The kind of token that has such a value. -/
def kind : Accessor → Kind
  | .numeric => .numberLiteral
  | .string => .stringLiteral
  | .boolean => .booleanLiteral
  | .identifier => .identifier

theorem kind_inj {a b : Accessor} (h : a.kind = b.kind) : a = b := by
  cases a <;> cases b <;> first | rfl | cases h

/-- Asks a token for a value. -/
def read (t : Token) : Accessor → Except TokenError Value
  | .numeric => t.numericValue.map Number.Numeral.value
  | .string => t.stringValue.map .text
  | .boolean => t.booleanValue.map .bool
  | .identifier => t.identifierName.map .text

/-- A token of another kind has no such value. -/
theorem read_other {a : Accessor} {t : Token} (h : a.kind ≠ t.kind) :
    ∃ e, a.read t = .error e ∧ e.code = .invalidTokenType ∧ e.token = t := by
  cases a with
  | numeric =>
      have hkind : ¬ t.kind = .numberLiteral := h.symm
      exact ⟨⟨.notNumber, t⟩, by rw [read, Token.numericValue, if_neg hkind]; rfl, rfl, rfl⟩
  | string =>
      have hkind : ¬ t.kind = .stringLiteral := h.symm
      exact ⟨⟨.notString, t⟩, by rw [read, Token.stringValue, if_neg hkind]; rfl, rfl, rfl⟩
  | boolean =>
      have hkind : ¬ t.kind = .booleanLiteral := h.symm
      exact ⟨⟨.notBoolean, t⟩, by rw [read, Token.booleanValue, if_neg hkind]; rfl, rfl, rfl⟩
  | identifier =>
      have hkind : ¬ t.kind = .identifier := h.symm
      exact ⟨⟨.notIdentifier, t⟩, by rw [read, Token.identifierName, if_neg hkind]; rfl, rfl, rfl⟩

end Accessor

/-! ## Tokens and nodes -/

/-- A literal token has a value, and so has its node when it is run, on any machine. -/
def Token.Values (t : Token) (node : Node) (v : Value) : Prop :=
  (∀ a : Accessor, a.kind = t.kind → a.read t = .ok v) ∧
    ∀ depth m, Eval.eval (depth + 1) node m = .ok v m

/-- A number token has no value, and its node faults when it is run, on any machine. -/
def Token.Faults (t : Token) (node : Node) (f : Number.NumeralFault) : Prop :=
  (∀ a : Accessor, a.kind = t.kind → a.read t = .error ⟨.malformedNumber, t⟩) ∧
    ∀ depth m, Eval.eval (depth + 1) node m = .error (.fault (.numeral f)) m

/-- A literal token that is read from the characters `span`, and the node that is built from it. -/
structure Token.Agrees (t : Token) (span : List Char) (node : Node) : Prop where
  /-- With the token in hand, the parser builds the node and takes the next token. -/
  built : ∀ depth s, s.token = t →
    Parser.literal t.kind (depth + 1) s = (do Parser.shift; return node) s
  /-- Token and node have the value of the characters. -/
  value : ¬ Oversized span → ∃ v, Denotes span v ∧ t.Values node v
  /-- Neither has one where an integer has too many digits. -/
  oversized : Oversized span → t.Faults node (.tooManyDigits span.length)
  /-- The token has no value of another kind. -/
  others : ∀ a : Accessor, a.kind ≠ t.kind →
    ∃ e, a.read t = .error e ∧ e.code = .invalidTokenType ∧ e.token = t

theorem isDigit_char {c : Char} (h : isDigit c = true) : c.isDigit = true := by
  simpa [isDigit, Char.isDigit, UInt32.le_iff_toNat_le, Char.le_def] using h

theorem eval_number (lexeme : String) (depth : Nat) (m : Machine) :
    Eval.eval (depth + 1) (.number lexeme) m = Eval.attempt (Eval.numberValue lexeme) m := by
  show Eval.perform (depth + 1) (.eval (.number lexeme)) m = _
  rw [perform_eval]
  rfl

namespace Token

variable {t : Token} {span : List Char}

/-- A token of some kind answers the accessor of this kind. -/
theorem forall_accessor (own : Accessor) {P : Except TokenError Value → Prop}
    (hkind : t.kind = own.kind) (h : P (own.read t)) (a : Accessor) (ha : a.kind = t.kind) :
    P (a.read t) := by
  obtain rfl : a = own := Accessor.kind_inj (ha.trans hkind)
  exact h

/-! ### Values -/

/-- A number literal has the value that its lexeme is read as. -/
theorem number_values {lexeme : String} {n : Number.Numeral} (hkind : t.kind = .numberLiteral)
    (hlexeme : t.lexeme = some lexeme) (hread : Number.Numeral.read lexeme = .ok n) :
    t.Values (.number lexeme) n.value := by
  refine ⟨forall_accessor .numeric (P := (· = _)) hkind ?_, fun depth m => ?_⟩
  · rw [Accessor.read, numericValue, if_pos hkind, hlexeme, Option.getD_some, hread]
    rfl
  · rw [eval_number, Eval.numberValue, hread]
    cases n <;> rfl

/-- A number literal whose lexeme cannot be read has no value. -/
theorem number_faults {lexeme : String} {f : Number.NumeralFault} (hkind : t.kind = .numberLiteral)
    (hlexeme : t.lexeme = some lexeme) (hread : Number.Numeral.read lexeme = .error f) :
    t.Faults (.number lexeme) f := by
  refine ⟨forall_accessor .numeric (P := (· = _)) hkind ?_, fun depth m => ?_⟩
  · rw [Accessor.read, numericValue, if_pos hkind, hlexeme, Option.getD_some, hread]
    rfl
  · rw [eval_number, Eval.numberValue, hread]
    rfl

/-- A string literal has the value between its quotes. -/
theorem string_values {quote : Char} {body : List Char} (hkind : t.kind = .stringLiteral)
    (hlexeme : t.lexeme = some (String.ofList (quote :: (body ++ [quote])))) :
    t.Values (.string (String.ofList (quote :: (body ++ [quote]))))
      (.text (String.ofList body)) := by
  have hbody : ((quote :: (body ++ [quote])).drop 1).dropLast = body := by simp
  refine ⟨forall_accessor .string (P := (· = _)) hkind ?_, fun depth m => ?_⟩
  · rw [Accessor.read, stringValue, if_pos hkind, hlexeme, Option.getD_some, String.toList_ofList]
    simp only [hbody]
    rw [if_neg (by simp)]
    rfl
  · show EStateM.Result.ok (Value.text (Eval.unquote _)) m = _
    rw [Eval.unquote, String.toList_ofList, hbody]

/-- A truth value is what its lexeme says. -/
theorem truth_values {b : Bool} {lexeme : String} (hkind : t.kind = .booleanLiteral)
    (hlexeme : t.lexeme = some lexeme) (hb : lexeme = if b then "true" else "false") :
    t.Values (.boolean lexeme) (.bool b) := by
  refine ⟨forall_accessor .boolean (P := (· = _)) hkind ?_, fun depth m => ?_⟩
  · rw [Accessor.read, booleanValue, if_pos hkind, hlexeme, hb]
    cases b <;> rfl
  · show EStateM.Result.ok (Value.bool (lexeme = "true")) m = _
    rw [hb]
    cases b <;> rfl

/-! ### Agreement -/

theorem agrees_of_values {node : Node} (hnode : t.literal? = some node)
    (hvalue : ¬ Oversized span → ∃ v, Denotes span v ∧ t.Values node v)
    (hoversized : Oversized span → t.Faults node (.tooManyDigits span.length)) :
    t.Agrees span node where
  built := by
    rintro depth s rfl
    exact Parser.literal_takes hnode depth
  value := hvalue
  oversized := hoversized
  others := fun _ ha => Accessor.read_other ha

/-- A literal that is not digits only has its value whatever its length. -/
theorem agrees_of_mem {node : Node} {c : Char} {v : Value} (hnode : t.literal? = some node)
    (hc : c ∈ span) (hdigit : isDigit c = false) (hdenotes : Denotes span v)
    (hvalues : t.Values node v) : t.Agrees span node := by
  refine agrees_of_values hnode (fun _ => ⟨v, hdenotes, hvalues⟩) fun hsize => ?_
  have h := hsize.1 c hc
  rw [hdigit] at h
  cases h

theorem number_agrees (hkind : t.kind = .numberLiteral)
    (hlexeme : t.lexeme = some (String.ofList span)) (h : IsNumeral span) :
    t.Agrees span (.number (String.ofList span)) := by
  have hnode := literal?_eq hkind hlexeme
  rcases h with ⟨hne, hdigits⟩ | ⟨whole, fraction, rfl, hne, hwhole, hfraction⟩
  · have hread := Number.Numeral.read_digits (fun c hc => isDigit_char (hdigits c hc)) hne
    refine agrees_of_values hnode (fun hsize => ?_) fun hsize => ?_
    · have hlength : ¬ Number.maxDigits < span.length := fun hlt => hsize ⟨hdigits, hlt⟩
      rw [if_neg hlength] at hread
      exact ⟨_, .integer hne hdigits (Nat.le_of_not_lt hlength), number_values hkind hlexeme hread⟩
    · rw [if_pos hsize.2] at hread
      exact number_faults hkind hlexeme hread
  · have hread := Number.Numeral.read_point (fun c hc => isDigit_char (hwhole c hc))
      (fun c hc => isDigit_char (hfraction c hc)) hne
    exact agrees_of_mem hnode (List.mem_append_right _ List.mem_cons_self) (by decide)
      (.decimal hne hwhole hfraction) (number_values hkind hlexeme hread)

theorem string_agrees {quote : Char} {raw body : List Char} (hkind : t.kind = .stringLiteral)
    (hlexeme : t.lexeme = some (String.ofList (quote :: (body ++ [quote]))))
    (hquote : isQuote quote = true) (h : Escapes quote raw body) :
    t.Agrees (quote :: (raw ++ [quote]))
      (.string (String.ofList (quote :: (body ++ [quote])))) := by
  have hdigit : isDigit quote = false := by
    rcases Cursor.isQuote_cases hquote with rfl | rfl <;> decide
  have hvalues := string_values hkind hlexeme
  -- the lexeme has the decoded characters between the quotes, the text those that were decoded
  rw [h.eq_decoded] at hvalues
  rw [h.eq_decoded] at hlexeme ⊢
  exact agrees_of_mem (literal?_eq hkind hlexeme) List.mem_cons_self hdigit (.quotation hquote)
    hvalues

theorem truth_agrees (hkind : t.kind = .booleanLiteral)
    (hlexeme : t.lexeme = some (String.ofList span))
    (h : span = "true".toList ∨ span = "false".toList) :
    t.Agrees span (.boolean (String.ofList span)) := by
  have hnode := literal?_eq hkind hlexeme
  rcases h with rfl | rfl
  · exact agrees_of_mem hnode List.mem_cons_self (by decide) .truth
      (truth_values (b := true) hkind hlexeme rfl)
  · exact agrees_of_mem hnode List.mem_cons_self (by decide) .falsehood
      (truth_values (b := false) hkind hlexeme rfl)

theorem tables_without_literals :
    ∀ entry ∈ Kind.keywords ++ (Kind.pairSigns ++ Kind.singleSigns), entry.2.isSilent = true := by
  decide +kernel

/-- A literal token agrees with its node, whatever characters it is written with. -/
theorem agrees_of_written {node : Node} (hnode : t.literal? = some node)
    (h : t.kind.WrittenAs t.lexeme span) : t.Agrees span node := by
  obtain ⟨kind, line, column, lexeme⟩ := t
  cases h with
  | number h =>
      obtain rfl := Option.some.inj hnode
      exact number_agrees rfl rfl h
  | string hquote h =>
      obtain rfl := Option.some.inj hnode
      exact string_agrees rfl rfl hquote h
  | truth h =>
      obtain rfl := Option.some.inj hnode
      exact truth_agrees rfl rfl h
  -- the other kinds have no node, and the entries of the tables are of such a kind
  | newline _ _ => cases hnode
  | identifier _ _ _ => cases hnode
  | keyword h =>
      have hsilent := tables_without_literals _ (List.mem_append_left _ h)
      rw [literal?, Word.literal?_silent hsilent] at hnode
      cases hnode
  | sign h =>
      have hsilent := tables_without_literals _ (List.mem_append_right _ h)
      rw [literal?, Word.literal?_silent hsilent] at hnode
      cases hnode

theorem exists_literal (h : t.kind ∈ [Kind.numberLiteral, .stringLiteral, .booleanLiteral]) :
    ∃ node, t.literal? = some node := by
  obtain ⟨kind, line, column, lexeme⟩ := t
  simp only [List.mem_cons, List.not_mem_nil, or_false] at h
  rcases h with rfl | rfl | rfl <;> exact ⟨_, rfl⟩

end Token

/-! ## Literals of a text -/

theorem Cursor.agrees_of_next {source : String} {n : Nat} {t : Token} {node : Node}
    (ht : ((ofString source).behind n).next.1 = .ok t) (hnode : t.literal? = some node) :
    t.Agrees ((ofString source).behind n).spanned node := by
  have hend : t.kind ≠ .endOfFile := by
    rcases Token.literal?_cases hnode with ⟨hkind, -⟩ | ⟨hkind, -⟩ | ⟨hkind, -⟩ <;>
      · rw [hkind]
        decide
  have haccounts := (standsIn_behind source.toList n).accounts.1
  exact Token.agrees_of_written hnode (haccounts.read t ht hend).2.written

theorem Kind.WrittenAs.number_lexeme {lexeme : String} {cs : List Char}
    (h : WrittenAs .numberLiteral (some lexeme) cs) : lexeme = String.ofList cs := by
  cases h
  rfl

/-- A text of digits is read as one number. -/
theorem Cursor.next_digits {cs : List Char} (hne : cs ≠ []) (h : ∀ d ∈ cs, isDigit d = true) :
    ∃ t, (ofString (String.ofList cs)).next.1 = .ok t ∧ t.kind = .numberLiteral ∧
      (ofString (String.ofList cs)).spanned = cs := by
  have hspelled : Word.Spelled ⟨.numberLiteral, some (String.ofList cs)⟩ := by
    refine ⟨⟨_, rfl, .inl ?_⟩, Kind.noConfusion⟩
    rw [String.toList_ofList]
    exact ⟨hne, h⟩
  have hrest : (ofString (String.ofList cs)).rest =
      Word.chars ⟨.numberLiteral, some (String.ofList cs)⟩ ++ [] := (List.append_nil _).symm
  obtain ⟨t, after, hnext, hword, -⟩ :=
    next_chars hspelled (.inl hrest) (fun c hc => by cases hc)
  have hkind : t.kind = .numberLiteral := congrArg Word.kind hword
  have hlexeme : t.lexeme = some (String.ofList cs) := congrArg Word.lexeme hword
  have ht : (ofString (String.ofList cs)).next.1 = .ok t := congrArg Prod.fst hnext
  have hwritten := ((standsIn_behind (String.ofList cs).toList 0).accounts.1.read t ht
    (by rw [hkind]; decide)).2.written
  rw [hkind, hlexeme] at hwritten
  exact ⟨t, ht, hkind, (String.ofList_injective hwritten.number_lexeme).symm⟩

/-- Every literal token that is read from a text agrees with its node on the value of the characters
    that it is read from, and the literals of the tree of the text are the nodes of its literal
    tokens. -/
theorem literals_agree (source : String) :
    (∀ n t, ((Cursor.ofString source).behind n).next.1 = .ok t →
      t.kind ∈ [Kind.numberLiteral, .stringLiteral, .booleanLiteral] →
        ∃ node, t.literal? = some node ∧
          t.Agrees ((Cursor.ofString source).behind n).spanned node) ∧
    ∀ tree, parse source = .ok tree →
      tree.literals = (Cursor.ofString source).tokens.1.filterMap Token.literal? := by
  refine ⟨fun n t ht hkind => ?_, fun tree htree => parse_literals htree⟩
  obtain ⟨node, hnode⟩ := Token.exists_literal hkind
  exact ⟨node, hnode, Cursor.agrees_of_next ht hnode⟩

/-- A sum with a pair in a quotation, and a number of one digit too many. -/
theorem literals_agree_escaped_and_oversized :
    (∃ t node, ((Cursor.ofString "\x7b\nshow .5 + 'it\\'s'\n\x7d").behind 5).next.1 = .ok t ∧
      t.literal? = some node ∧ t.Values node (.text "it's")) ∧
    (∃ tree, parse "\x7b\nshow .5 + 'it\\'s'\n\x7d" = .ok tree ∧
      tree.literals = [.number ".5", .string "'it's'"]) ∧
    ∃ t node, (Cursor.ofString (String.ofList (List.replicate 4301 '7'))).next.1 = .ok t ∧
      t.literal? = some node ∧ t.Faults node (.tooManyDigits 4301) := by
  refine ⟨?_, ?_, ?_⟩
  · have hnext : ((Cursor.ofString "\x7b\nshow .5 + 'it\\'s'\n\x7d").behind 5).next.1 =
        .ok ⟨.stringLiteral, 2, 11, some "'it's'"⟩ := by cbv
    have hspan : ((Cursor.ofString "\x7b\nshow .5 + 'it\\'s'\n\x7d").behind 5).spanned =
        "'it\\'s'".toList := by cbv
    obtain ⟨node, hnode, hagrees⟩ := (literals_agree _).1 5 _ hnext (by decide)
    rw [hspan] at hagrees
    obtain ⟨v, -, hvalues⟩ :=
      hagrees.value fun hsize => absurd (hsize.1 '\'' List.mem_cons_self) (by decide)
    have hread : Accessor.string.read ⟨.stringLiteral, 2, 11, some "'it's'"⟩ =
        .ok (.text "it's") := by cbv
    obtain rfl := Except.ok.inj (hread.symm.trans (hvalues.1 .string rfl))
    exact ⟨_, node, hnext, hnode, hvalues⟩
  · have hparse : ∃ tree, parse "\x7b\nshow .5 + 'it\\'s'\n\x7d" = .ok tree := ⟨_, by cbv⟩
    obtain ⟨tree, htree⟩ := hparse
    refine ⟨tree, htree, ((literals_agree _).2 tree htree).trans ?_⟩
    cbv
  · have hdigits : ∀ d ∈ List.replicate 4301 '7', isDigit d = true := by
      intro d hd
      rw [List.eq_of_mem_replicate hd]
      decide
    have hne : List.replicate 4301 '7' ≠ [] := List.cons_ne_nil _ _
    obtain ⟨t, ht, hkind, hspan⟩ := Cursor.next_digits hne hdigits
    obtain ⟨node, hnode, hagrees⟩ := (literals_agree _).1 0 t ht (by rw [hkind]; decide)
    have hsize : Oversized (List.replicate 4301 '7') :=
      ⟨hdigits, by rw [List.length_replicate]; decide⟩
    have hagrees : t.Agrees (List.replicate 4301 '7') node := hspan ▸ hagrees
    have hfaults := hagrees.oversized hsize
    rw [List.length_replicate] at hfaults
    exact ⟨t, node, ht, hnode, hfaults⟩

end BraceScript
