import Octet.Proofs.Program.Running
import Octet.Proofs.Token.Rendering
import Octet.Proofs.Tree.Completeness

/-!
# Literals survive the whole way

A literal is written down, scanned, read as a tree, laid out as an instruction, decoded by the
machine and handed back to the host.  This file says that it comes out as it went in, if it is a
word or a text, and which stage refuses it if it is not.

## The ways of an integer

A negative integer is no literal but a minus in front of one.  So it is its magnitude that goes
through the stages, and the sign is put back at the end.

* A magnitude that is a word is a literal of its own, and negating it on the machine is exact
  (`runs_integer`, `runs_negated`).
* The magnitude of the least word is no word.  Behind a minus it is laid out together with the minus,
  as one instruction (`runs_least`).
* Any other magnitude is refused when it is laid out (`runs_integer_tooWide`,
  `runs_negated_tooWide`).
* With more than 4300 digits it does not get that far, since the scanner refuses it
  (`runs_return_tooMany`).

No proof here looks at code: the demands of a tree say whether it is laid out, and its meaning says
what the machine does then (`runs_return`).
-/

namespace Octet

open Scan Grammar Cursor

/-! ## Decimal digits -/

theorem isDigit_of_mem_toString {n : Nat} {c : Char} (h : c ∈ (toString n).toList) :
    c.isDigit := by
  rw [Nat.toString_eq_repr, Nat.toList_repr] at h
  exact Nat.isDigit_of_mem_toDigits (by decide) (by decide) h

/-- The digits of a number stand for the number. -/
theorem Decimal.value_toString (n : Nat) : Decimal.value (toString n).toList = n := by
  -- the library reads digits by the same fold, but for the order of the factors
  have hstep : (fun acc c => acc * 10 + Decimal.digitValue c) =
      fun acc c => 10 * acc + (c.toNat - '0'.toNat) := by
    funext acc c
    rw [Nat.mul_comm]
    rfl
  rw [Nat.toString_eq_repr, Nat.toList_repr, Decimal.value, hstep, ← Nat.ofDigitChars_eq_foldl,
    Nat.ofDigitChars_ten_toDigits]

/-- A number with few enough digits is spelled by them. -/
theorem spells_toString {n : Nat} (hlen : (toString n).length ≤ 4300) :
    Spells .number (toString n).toList (some (.int n)) := by
  have hne : (toString n).toList ≠ [] := by
    rw [Nat.toString_eq_repr, Nat.toList_repr]
    exact Nat.toDigits_ne_nil
  have hspells := Spells.integer hne (fun _ => isDigit_of_mem_toString) hlen
  rwa [← Decimal.value_eq_ofDigits, Decimal.value_toString] at hspells

/-- A number with too many digits is refused. -/
theorem next_of_toString {n : Nat} (hlen : 4300 < (toString n).length) {gap : List Char}
    (hgap : Closed gap) (pos : Pos) :
    (Cursor.mk pos (gap ++ (toString n).toList)).next =
      .error ⟨.tooManyDigits (toString n).length, pos.after gap⟩ := by
  have hdigits : ∀ c ∈ (toString n).toList, c.isDigit := fun _ => isDigit_of_mem_toString
  have hscan : scanNumber (toString n).toList = .error (.tooManyDigits (toString n).length) := by
    have hcut := scanNumber_of_tooMany hdigits hlen (show ∀ d ∈ [].head?, isBlank d by simp)
    rwa [List.append_nil] at hcut
  -- the first digit is what the gap ends at
  cases htext : (toString n).toList with
  | nil =>
    rw [← String.length_toList, htext] at hlen
    cases hlen
  | cons c tail =>
    rw [htext] at hscan hdigits
    have hc : c.isDigit := hdigits c (List.mem_cons_self ..)
    rw [← scanLexeme_of_isDigit hc] at hscan
    refine next_of_fault hgap (splitGap_of_lexeme ?_ ?_) hscan pos
    · rw [Bool.eq_false_iff]
      intro hblank
      exact absurd ((of_isBlank hblank).1.symm.trans hc) (by decide)
    · rintro rfl
      exact absurd hc (by decide)

/-! ## From texts to trees

What stands next to each other here need not have a blank in between, so the tokens are read one by
one, each up to what cannot belong to it.  The trees are spelled in the free style first, and nothing
stands behind them that could continue them.
-/

theorem closed_blank : Closed [' '] :=
  .blank (show isBlank ' ' by decide) .nil

/-- The last spelling of a text is read, and the end. -/
theorem tokens_of_last {kind : TokenKind} {gap chars : List Char} {value : Option Scalar}
    (hgap : Closed gap) (hspells : Spells kind chars value) (pos : Pos) :
    ∃ finish, (Cursor.mk pos (gap ++ chars)).tokens =
      ([⟨kind, String.ofList chars, pos.after gap, value⟩, .eof finish], none) := by
  have hnext := next_of_spells hgap hspells (show ∀ c ∈ [].head?, isBlank c by simp) pos
  have hend := tokens_of_end (next_of_gap .nil ((pos.after gap).after chars))
  have htokens := tokens_of_next hnext
  rw [List.append_nil, hend] at htokens
  exact ⟨_, htokens⟩

/-- A text that starts with `return` and a blank is read as this word and what is behind it. -/
theorem tokens_return (text : String) :
    (Cursor.ofText ("return " ++ text)).tokens =
      (⟨.returnWord, "return", ⟨1, 1⟩, none⟩ :: (Cursor.mk ⟨1, 7⟩ ([' '] ++ text.toList)).tokens.1,
        (Cursor.mk ⟨1, 7⟩ ([' '] ++ text.toList)).tokens.2) := by
  have htext : ("return " ++ text).toList =
      ['r', 'e', 't', 'u', 'r', 'n'] ++ ([' '] ++ text.toList) := by
    rw [String.toList_append]
    rfl
  have hspells : Spells .returnWord ['r', 'e', 't', 'u', 'r', 'n'] none := .keyword (by decide)
  have hblank : ∀ c ∈ ([' '] ++ text.toList).head?, isBlank c := by
    intro c hc
    cases hc
    rfl
  rw [Cursor.ofText, htext]
  exact tokens_of_next (next_of_spells .nil hspells hblank Pos.start)

/-- A minus behind a blank is read as a token, whatever is behind it. -/
theorem next_minus (text : List Char) : (Cursor.mk ⟨1, 7⟩ ([' '] ++ '-' :: text)).next =
    .ok (⟨.minus, "-", ⟨1, 8⟩, none⟩, some ⟨⟨1, 9⟩, text⟩) := by
  have hfront : splitGap ('-' :: text) = ([], '-' :: text) :=
    splitGap_of_lexeme (by decide) fun h => absurd h (by decide)
  have hscan : scanLexeme '-' text = .ok (⟨.minus, ['-'], none⟩, text) := rfl
  exact next_of_lexeme closed_blank hfront hscan ⟨1, 7⟩

/-- A text that starts with `return`, a blank and a minus is read as these two and what is behind
them. -/
theorem tokens_return_minus (text : String) :
    (Cursor.ofText ("return " ++ ("-" ++ text))).tokens =
      (⟨.returnWord, "return", ⟨1, 1⟩, none⟩ :: ⟨.minus, "-", ⟨1, 8⟩, none⟩ ::
          (Cursor.mk ⟨1, 9⟩ ([] ++ text.toList)).tokens.1,
        (Cursor.mk ⟨1, 9⟩ ([] ++ text.toList)).tokens.2) := by
  have htext : ("-" ++ text).toList = '-' :: ([] ++ text.toList) := by
    rw [String.toList_append]
    rfl
  rw [tokens_return, htext, tokens_of_next (next_minus _)]

/-- Tokens that spell a program are read as it. -/
theorem parse_of_items {text : String} {tokens : List Token} {items : List Stmt} {finish : Pos}
    (htokens : (Cursor.ofText text).tokens = (tokens ++ [.eof finish], none))
    (hkinds : ∀ t ∈ tokens, t.kind ≠ .eof) (hitems : Items .greedy maxNesting items tokens) :
    Source.parse text = .ok ⟨items⟩ := by
  have hahead : (Reader.ofTokens (tokens ++ [.eof finish])).ahead = tokens := by
    rw [Reader.ahead_ofTokens, takeWhile_concat rfl]
    exact List.takeWhile_eq_self_iff.2 fun t ht => bne_iff_ne.2 (hkinds t ht)
  have hprogram : Program.ofTokens (tokens ++ [.eof finish]) = .ok ⟨items⟩ := by
    rw [Program.ofTokens, Reader.parse, hahead, (Reader.ofTokens_final _).2.2, Nat.sub_zero,
      program_iff.2 hitems]
  rw [Source.parse, tokenize, htokens]
  exact congrArg (Except.mapError SourceError.parse) hprogram

/-- A number or a text is an operand. -/
theorem operand_value {t : Token} (hkind : t.kind = .number ∨ t.kind = .string) (room : Nat)
    (rest : List Token) : Operand .free room (.literal t.pos t.value) (t :: rest) rest := by
  cases room with
  | zero => exact .value hkind
  | succ room => exact .value hkind

/-- An operand is an expression. -/
theorem expression_of_operand {room : Nat} {e : Expr} {tokens rest : List Token}
    (h : Operand .free room e tokens rest) : Expression .free (room + 1) e tokens rest :=
  (operation_iff trivial).2 (.operand h)

/-- A `return` with an expression behind it, up to the end. -/
theorem items_return (word : Token) {e : Expr} {tokens : List Token}
    (hword : word.kind = .returnWord) (hvalue : returnsValue word tokens = true)
    (he : Expression .free maxNesting e tokens []) :
    Items .greedy maxNesting [.returning word.pos (some e)] (word :: tokens) := by
  have hstatement : StatementOf .greedy (Expression .greedy maxNesting)
      (Braced (Statements .greedy (Statement .greedy 47))) (.returning word.pos (some e))
      (word :: tokens) [] :=
    .valued hword hvalue (Expression.becomes maxNesting he trivial)
  refine .statement ?_ hstatement trivial .done
  rw [Style.greedy_avoids, avoids_cons, hword]
  decide

/-- A name that is called on a literal, up to the end. -/
theorem items_call (name paren t paren' : Token) (hname : name.kind = .identifier)
    (hopen : paren.kind = .leftParen) (ht : t.kind = .number ∨ t.kind = .string)
    (hclose : paren'.kind = .rightParen) :
    Items .greedy maxNesting
      [.exprStmt name.pos (.call name.pos name.lexeme [.literal t.pos t.value])]
      [name, paren, t, paren'] := by
  have hargument : Expression .free 47 (.literal t.pos t.value) [t, paren'] [paren'] :=
    expression_of_operand (operand_value ht 46 [paren'])
  have hcall : Operand .free 47 (.call name.pos name.lexeme [.literal t.pos t.value])
      [name, paren, t, paren'] [] :=
    OperandOf.call hname hopen (.some trivial (.one hargument trivial) hclose)
  have hstatement : StatementOf .greedy (Expression .greedy maxNesting)
      (Braced (Statements .greedy (Statement .greedy 47)))
      (.exprStmt name.pos (.call name.pos name.lexeme [.literal t.pos t.value]))
      [name, paren, t, paren'] [] := by
    refine .plain ?_ (fun _ => ?_)
      (Expression.becomes maxNesting (expression_of_operand hcall) trivial)
    · rw [Style.greedy_avoids, avoids_cons, hname]
      decide
    · rw [Style.greedy_avoids, avoids_cons, hopen]
      decide
  refine .statement ?_ hstatement trivial .done
  rw [Style.greedy_avoids, avoids_cons, hname]
  decide

/-- `return` and a literal. -/
theorem parse_return {kind : TokenKind} {value : Option Scalar} {text : String}
    (hspells : Spells kind text.toList value) (hkind : kind = .number ∨ kind = .string) :
    Source.parse ("return " ++ text) =
      .ok ⟨[.returning ⟨1, 1⟩ (some (.literal ⟨1, 8⟩ value))]⟩ := by
  obtain ⟨finish, hlast⟩ := tokens_of_last closed_blank hspells ⟨1, 7⟩
  have htokens := tokens_return text
  rw [hlast] at htokens
  have hoperand : Operand .free 47 (.literal ⟨1, 8⟩ value)
      [⟨kind, String.ofList text.toList, ⟨1, 8⟩, value⟩] [] :=
    operand_value (t := ⟨_, _, _, _⟩) hkind 47 []
  have hitems : Items .greedy maxNesting _
      [⟨.returnWord, "return", ⟨1, 1⟩, none⟩, ⟨kind, String.ofList text.toList, ⟨1, 8⟩, value⟩] :=
    items_return ⟨_, _, _, _⟩ rfl (by rcases hkind with rfl | rfl <;> rfl)
      (expression_of_operand hoperand)
  refine parse_of_items htokens ?_ hitems
  rcases hkind with rfl | rfl <;> simp

/-- `return` and a literal with a minus in front of it. -/
theorem parse_return_negated {value : Option Scalar} {text : String}
    (hspells : Spells .number text.toList value) :
    Source.parse ("return " ++ ("-" ++ text)) =
      .ok ⟨[.returning ⟨1, 1⟩ (some (.unary ⟨1, 8⟩ "-" (.literal ⟨1, 9⟩ value)))]⟩ := by
  obtain ⟨finish, hlast⟩ := tokens_of_last .nil hspells ⟨1, 9⟩
  have htokens := tokens_return_minus text
  rw [hlast] at htokens
  have hoperand : Operand .free 47 (.unary ⟨1, 8⟩ "-" (.literal ⟨1, 9⟩ value))
      [⟨.minus, "-", ⟨1, 8⟩, none⟩, ⟨.number, String.ofList text.toList, ⟨1, 9⟩, value⟩] [] :=
    OperandOf.prefixed (t := ⟨_, _, _, _⟩) (.inr rfl)
      (operand_value (t := ⟨_, _, _, _⟩) (.inl rfl) 46 [])
  have hitems : Items .greedy maxNesting _ [⟨.returnWord, "return", ⟨1, 1⟩, none⟩,
      ⟨.minus, "-", ⟨1, 8⟩, none⟩, ⟨.number, String.ofList text.toList, ⟨1, 9⟩, value⟩] :=
    items_return ⟨_, _, _, _⟩ rfl rfl (expression_of_operand hoperand)
  exact parse_of_items htokens (by simp) hitems

/-- A lexeme with no gap in front of it is read, whatever is behind it. -/
theorem tokens_of_lexeme {c : Char} {text rest : List Char} {l : Lexeme} (hblank : isBlank c = false)
    (hslash : c ≠ '/') (hscan : scanLexeme c text = .ok (l, rest)) (pos : Pos) :
    (Cursor.mk pos (c :: text)).tokens =
      (⟨l.kind, String.ofList l.chars, pos, l.value⟩ ::
          (Cursor.mk (pos.after l.chars) rest).tokens.1,
        (Cursor.mk (pos.after l.chars) rest).tokens.2) := by
  have hfront : splitGap (c :: text) = ([], c :: text) :=
    splitGap_of_lexeme hblank fun h => absurd h hslash
  exact tokens_of_next (next_of_lexeme .nil hfront hscan pos)

/-- The tokens of a call of the printing built-in on a text.  Nothing stands between them, so each
of them is scanned up to the next one. -/
theorem tokens_print {s : String} (hs : '"' ∉ s.toList) :
    ∃ place finish, (Cursor.ofText ("print_str(\"" ++ s ++ "\")")).tokens =
      ([⟨.identifier, "print_str", ⟨1, 1⟩, none⟩, ⟨.leftParen, "(", ⟨1, 10⟩, none⟩,
        ⟨.string, String.ofList ('"' :: (s.toList ++ ['"'])), ⟨1, 11⟩, some (.text s)⟩,
        ⟨.rightParen, ")", place, none⟩] ++ [.eof finish], none) := by
  have htext : ("print_str(\"" ++ s ++ "\")").toList =
      'p' :: (['r', 'i', 'n', 't', '_', 's', 't', 'r'] ++ '(' :: '"' :: (s.toList ++ ['"', ')'])) := by
    rw [String.toList_append, String.toList_append]
    exact List.append_assoc ..
  have hname : ∀ rest, scanLexeme 'p' (['r', 'i', 'n', 't', '_', 's', 't', 'r'] ++ '(' :: rest) =
      .ok (⟨.identifier, ['p', 'r', 'i', 'n', 't', '_', 's', 't', 'r'], none⟩, '(' :: rest) := by
    intro rest
    have hword : ∀ c ∈ ['p', 'r', 'i', 'n', 't', '_', 's', 't', 'r'], continuesWord c :=
      List.all_eq_true.1 rfl
    have hend : ∀ c ∈ ('(' :: rest).head?, continuesWord c = false := by
      intro c hc
      cases hc
      decide
    rw [scanLexeme_of_startsWord (by decide)]
    exact congrArg Except.ok (scanWord_of_boundary hword hend)
  have hopen : ∀ rest, scanLexeme '(' rest = .ok (⟨.leftParen, ['('], none⟩, rest) := fun _ => rfl
  have hclose : ∀ rest, scanLexeme ')' rest = .ok (⟨.rightParen, [')'], none⟩, rest) := fun _ => rfl
  have hquoted : scanLexeme '"' (s.toList ++ ['"', ')']) =
      .ok (⟨.string, '"' :: (s.toList ++ ['"']), some (.text s)⟩, [')']) := by
    have hscan := scanString_of_notMem hs [')']
    rwa [String.ofList_toList] at hscan
  rw [Cursor.ofText, htext, tokens_of_lexeme (by decide) (by decide) (hname _),
    tokens_of_lexeme (by decide) (by decide) (hopen _),
    tokens_of_lexeme (by decide) (by decide) hquoted,
    tokens_of_lexeme (by decide) (by decide) (hclose _), tokens_of_end (next_of_gap .nil _)]
  exact ⟨_, _, rfl⟩

/-- A call of the printing built-in on a text. -/
theorem parse_print {s : String} (hs : '"' ∉ s.toList) :
    Source.parse ("print_str(\"" ++ s ++ "\")") =
      .ok ⟨[.exprStmt ⟨1, 1⟩ (.call ⟨1, 1⟩ "print_str" [.literal ⟨1, 11⟩ (some (.text s))])]⟩ := by
  obtain ⟨place, finish, htokens⟩ := tokens_print hs
  exact parse_of_items htokens (by simp)
    (items_call ⟨_, _, _, _⟩ ⟨_, _, _, _⟩ ⟨_, _, _, _⟩ ⟨_, _, _, _⟩ rfl rfl (.inr rfl) rfl)

/-! ## From trees to results -/

section

variable {text : String} {pos : Pos} {e : Expr}

/-- A `return` asks for what its value asks for. -/
theorem demands_return (pos : Pos) (e : Expr) :
    Program.demands ⟨[.returning pos (some e)]⟩ = e.demands :=
  List.append_nil e.demands

/-- **A text that returns an expression comes to the value of the expression**, if the expression
asks for nothing that there is not and has a value. -/
theorem runs_return (hparse : Source.parse text = .ok ⟨[.returning pos (some e)]⟩)
    (hall : Demand.AllMet e.demands) (hsize : e.size < maxCodeSize) (hdebug : e.callsDebug = false)
    {d : Datum} (hvalue : e.meaning.perform defaultMaxStack {} = (.ok (), { stack := [d] })) :
    Source.Runs text (.ok (.ok (some d.scalar), #[])) := by
  have hcompile : ∃ image, Program.compile ⟨[.returning pos (some e)]⟩ = .ok image := by
    refine Program.compile_of_allMet ?_ hsize nofun
    rwa [demands_return]
  obtain ⟨image, himage⟩ := hcompile
  have hmeaning : Program.meaning defaultMaxStack 0 ⟨[.returning pos (some e)]⟩ =
      (some (.returned (some d.scalar)), #[]) := by
    rw [Program.meaning, Stmt.meaningList, Stmt.meaning, Meaning.perform_bind, Meaning.perform_bind,
      hvalue]
    rfl
  have hquiet : Program.callsDebug ⟨[.returning pos (some e)]⟩ = false := by
    rw [Program.callsDebug, Stmt.listCallsDebug, Stmt.callsDebug, hdebug]
    rfl
  exact Source.runs_of_meaning hparse himage hquiet hmeaning

/-- A text that returns an expression which asks for something that there is not is refused. -/
theorem runs_return_unmet (hparse : Source.parse text = .ok ⟨[.returning pos (some e)]⟩)
    {demand : Demand} (hunmet : Demand.FirstUnmet e.demands demand) :
    ∃ site, Source.Runs text (.error (.compile ⟨demand.fault, site⟩)) := by
  rw [← demands_return pos] at hunmet
  obtain ⟨site, hsite⟩ := Program.compile_of_firstUnmet hunmet
  exact ⟨site, Source.runs_of_compileError hparse hsite⟩

end

section

variable {text : String} {m : Nat} {pos pos' pos'' : Pos}

/-- A single demand is met if it is met on its own. -/
theorem allMet_single {demand : Demand} (h : demand.Met []) : Demand.AllMet [demand] :=
  Demand.allMet_nil.snoc h

theorem firstUnmet_single {demand : Demand} (h : ¬ demand.Met []) :
    Demand.FirstUnmet [demand] demand :=
  ⟨[], [], rfl, Demand.allMet_nil, h⟩

/-- An integer that is a word. -/
theorem runs_integer
    (hparse : Source.parse text = .ok ⟨[.returning pos (some (.literal pos' (some (.int m))))]⟩)
    (hm : (m : Int) ≤ Word32.greatest) : Source.Runs text (.ok (.ok (some (.int m)), #[])) := by
  have hword : Demand.Met [] (.counts m) := ⟨by rw [Word32.least]; omega, hm⟩
  exact runs_return hparse (allMet_single hword) (show 5 < 256 by decide) rfl (d := .int m) rfl

/-- An integer that is no word. -/
theorem runs_integer_tooWide
    (hparse : Source.parse text = .ok ⟨[.returning pos (some (.literal pos' (some (.int m))))]⟩)
    (hm : Word32.greatest < m) :
    ∃ site, Source.Runs text (.error (.compile ⟨.integerTooWide m, site⟩)) :=
  runs_return_unmet hparse (firstUnmet_single fun hword => Int.not_le.2 hm hword.2)

/-- A minus and a magnitude are laid out as one instruction only for the least word. -/
theorem isLeastMagnitude_integer :
    Expr.isLeastMagnitude (.literal pos (some (.int m))) = true ↔ (m : Int) = -Word32.least := by
  rw [Expr.isLeastMagnitude]
  · exact beq_iff_eq
  · exact nofun

/-- Any other magnitude is asked for, whatever stands in front of it. -/
theorem demands_negated (hm : (m : Int) ≠ -Word32.least) :
    Expr.demands (.unary pos "-" (.literal pos' (some (.int m)))) = [.counts m] := by
  rw [Expr.demands, if_neg fun h => hm (isLeastMagnitude_integer.1 h.2)]
  rfl

/-- A minus in front of a magnitude that is a word. -/
theorem runs_negated
    (hparse : Source.parse text =
      .ok ⟨[.returning pos (some (.unary pos' "-" (.literal pos'' (some (.int m)))))]⟩)
    (hm : (m : Int) ≤ Word32.greatest) : Source.Runs text (.ok (.ok (some (.int (-m))), #[])) := by
  have hne : (m : Int) ≠ -Word32.least := by
    rw [Word32.greatest] at hm
    rw [Word32.least]
    omega
  have hword : Demand.Met [] (.counts m) := ⟨by rw [Word32.least]; omega, hm⟩
  have hneg : Word32.wrap (-(m : Int)) = -m := by
    rw [Word32.greatest] at hm
    exact Word32.wrap_of_mem (by rw [Word32.least]; omega) (by rw [Word32.greatest]; omega)
  have hvalue : (Expr.meaning (.unary pos' "-" (.literal pos'' (some (.int m))))).perform
      defaultMaxStack {} = (.ok (), { stack := [.int (-m)] }) := by
    rw [Expr.meaning, if_neg fun h => hne (isLeastMagnitude_integer.1 h.2), ← hneg]
    rfl
  refine runs_return hparse ?_ ?_ rfl hvalue
  · rw [demands_negated hne]
    exact allMet_single hword
  · rw [Expr.size, if_neg fun h => hne (isLeastMagnitude_integer.1 h.2)]
    exact show 6 < 256 by decide

/-- The least word. -/
theorem runs_least
    (hparse : Source.parse text =
      .ok ⟨[.returning pos (some (.unary pos' "-" (.literal pos'' (some (.int m)))))]⟩)
    (hm : (m : Int) = -Word32.least) : Source.Runs text (.ok (.ok (some (.int (-m))), #[])) := by
  have hminus : "-" = "-" ∧ Expr.isLeastMagnitude (.literal pos'' (some (.int m))) = true :=
    ⟨rfl, isLeastMagnitude_integer.2 hm⟩
  have hvalue : (Expr.meaning (.unary pos' "-" (.literal pos'' (some (.int m))))).perform
      defaultMaxStack {} = (.ok (), { stack := [.int (-m)] }) := by
    rw [Expr.meaning, if_pos hminus, hm]
    rfl
  refine runs_return hparse ?_ ?_ rfl hvalue
  · rw [Expr.demands, if_pos hminus]
    exact Demand.allMet_nil
  · rw [Expr.size, if_pos hminus]
    exact show 5 < 256 by decide

/-- A minus in front of any other magnitude. -/
theorem runs_negated_tooWide
    (hparse : Source.parse text =
      .ok ⟨[.returning pos (some (.unary pos' "-" (.literal pos'' (some (.int m)))))]⟩)
    (hm : -Word32.least < m) :
    ∃ site, Source.Runs text (.error (.compile ⟨.integerTooWide m, site⟩)) := by
  have hunmet : ¬ Demand.Met [] (.counts m) := by
    intro hword
    have hgreatest : (m : Int) ≤ Word32.greatest := hword.2
    rw [Word32.greatest] at hgreatest
    rw [Word32.least] at hm
    omega
  refine runs_return_unmet hparse (?_ : Demand.FirstUnmet _ (.counts m))
  rw [demands_negated (Int.ne_of_gt hm)]
  exact firstUnmet_single hunmet

/-- A text. -/
theorem runs_text {s : String}
    (hparse : Source.parse text = .ok ⟨[.returning pos (some (.literal pos' (some (.text s))))]⟩) :
    Source.Runs text (.ok (.ok (some (.text s)), #[])) :=
  runs_return hparse (allMet_single (show 1 ≤ 256 by decide)) (show 2 < 256 by decide) rfl
    (d := .text s) rfl

/-- A text that is printed. -/
theorem runs_print {s : String}
    (hparse : Source.parse text =
      .ok ⟨[.exprStmt pos (.call pos' "print_str" [.literal pos'' (some (.text s))])]⟩) :
    Source.Runs text (.ok (.ok none, #[s ++ "\n"])) := by
  have hcalls : Demand.Met [] (.calls "print_str" 1) := ⟨.printStr, by decide, rfl⟩
  have hquotes : Demand.Met [.calls "print_str" 1] (.quotes s) := show 1 ≤ 256 by decide
  have hcompile : ∃ image, Program.compile
      ⟨[.exprStmt pos (.call pos' "print_str" [.literal pos'' (some (.text s))])]⟩ = .ok image :=
    Program.compile_of_allMet ((allMet_single hcalls).snoc hquotes) (show 4 ≤ 256 by decide) nofun
  have hmeaning : Program.meaning defaultMaxStack 0
      ⟨[.exprStmt pos (.call pos' "print_str" [.literal pos'' (some (.text s))])]⟩ =
        (some (.returned none), #[s ++ "\n"]) := rfl
  obtain ⟨image, himage⟩ := hcompile
  exact Source.runs_of_meaning hparse himage rfl hmeaning

end

/-! ## Texts of literals -/

section

variable {m : Nat}

/-- `return` and a natural number, if it has so few digits that it is read. -/
theorem runs_return_natural (hlen : (toString m).length ≤ 4300) :
    (m < 2 ^ 31 → Source.Runs ("return " ++ toString m) (.ok (.ok (some (.int m)), #[]))) ∧
    (2 ^ 31 ≤ m → ∃ site, Source.Runs ("return " ++ toString m)
      (.error (.compile ⟨.integerTooWide m, site⟩))) := by
  have hparse := parse_return (spells_toString hlen) (.inl rfl)
  constructor
  · intro hm
    exact runs_integer hparse (by rw [Word32.greatest]; omega)
  · intro hm
    exact runs_integer_tooWide hparse (by rw [Word32.greatest]; omega)

/-- The same with a minus in front of the number. -/
theorem runs_return_negative (hlen : (toString m).length ≤ 4300) :
    (m ≤ 2 ^ 31 →
      Source.Runs ("return " ++ ("-" ++ toString m)) (.ok (.ok (some (.int (-m))), #[]))) ∧
    (2 ^ 31 < m → ∃ site, Source.Runs ("return " ++ ("-" ++ toString m))
      (.error (.compile ⟨.integerTooWide m, site⟩))) := by
  have hparse := parse_return_negated (spells_toString hlen)
  refine ⟨fun hm => ?_, fun hm => ?_⟩
  · -- one of these magnitudes is no word
    rcases Nat.lt_or_eq_of_le hm with hlt | rfl
    · exact runs_negated hparse (by rw [Word32.greatest]; omega)
    · exact runs_least hparse rfl
  · exact runs_negated_tooWide hparse (by rw [Word32.least]; omega)

/-- Either is refused by the scanner if the number has too many digits. -/
theorem runs_return_tooMany (hlen : 4300 < (toString m).length) :
    (∃ e, Source.Runs ("return " ++ toString m) (.error (.lex e))) ∧
    ∃ e, Source.Runs ("return " ++ ("-" ++ toString m)) (.error (.lex e)) := by
  constructor
  · have htokens := tokens_return (toString m)
    rw [tokens_of_fault (next_of_toString hlen closed_blank _)] at htokens
    exact ⟨_, Source.runs_of_lexError htokens⟩
  · have htokens := tokens_return_minus (toString m)
    rw [tokens_of_fault (next_of_toString hlen .nil _)] at htokens
    exact ⟨_, Source.runs_of_lexError htokens⟩

end

/-- `return` and a text. -/
theorem runs_return_text {s : String} (hs : '"' ∉ s.toList) :
    Source.Runs ("return \"" ++ s ++ "\"") (.ok (.ok (some (.text s)), #[])) := by
  have htext : "return \"" ++ s ++ "\"" = "return " ++ ("\"" ++ s ++ "\"") := by
    rw [show "return \"" = "return " ++ "\"" by decide]
    simp only [String.append_assoc]
  have hspells : Spells .string ("\"" ++ s ++ "\"").toList (some (.text s)) := by
    have hstring := Spells.string hs
    rw [String.ofList_toList] at hstring
    rw [String.toList_append, String.toList_append]
    exact hstring
  rw [htext]
  exact runs_text (parse_return hspells (.inr rfl))

/-- **Literals survive the whole way**, from the text to what the host is given.  An integer that is
a word is returned, whatever its sign; one that is no word is refused when it is laid out, or by the
scanner if it has too many digits.  A text without a quote in it is returned, and printed, as it is
written. -/
theorem runs_literals (n : Int) {s : String} (hs : '"' ∉ s.toList) :
    ((toString n.natAbs).length ≤ 4300 →
      (-2 ^ 31 ≤ n ∧ n ≤ 2 ^ 31 - 1 →
        Source.Runs ("return " ++ toString n) (.ok (.ok (some (.int n)), #[]))) ∧
      (¬ (-2 ^ 31 ≤ n ∧ n ≤ 2 ^ 31 - 1) → ∃ e,
        Source.Runs ("return " ++ toString n) (.error (.compile e)) ∧
          e.fault.kind? = some .limit)) ∧
    (4300 < (toString n.natAbs).length →
      ∃ e, Source.Runs ("return " ++ toString n) (.error (.lex e))) ∧
    Source.Runs ("return \"" ++ s ++ "\"") (.ok (.ok (some (.text s)), #[])) ∧
    Source.Runs ("print_str(\"" ++ s ++ "\")") (.ok (.ok none, #[s ++ "\n"])) := by
  refine ⟨fun hlen => ?_, fun hlen => ?_, runs_return_text hs, runs_print (parse_print hs)⟩
  · cases n with
    | ofNat m =>
      have hword : (-2 ^ 31 ≤ Int.ofNat m ∧ Int.ofNat m ≤ 2 ^ 31 - 1) ↔ m < 2 ^ 31 := by
        rw [Int.ofNat_eq_natCast]
        omega
      rw [hword, Nat.not_lt]
      obtain ⟨hreturned, hrefused⟩ := runs_return_natural hlen
      exact ⟨hreturned, fun hm => (hrefused hm).elim fun site hruns => ⟨_, hruns, rfl⟩⟩
    | negSucc m =>
      have hword : (-2 ^ 31 ≤ Int.negSucc m ∧ Int.negSucc m ≤ 2 ^ 31 - 1) ↔ m + 1 ≤ 2 ^ 31 := by
        rw [Int.negSucc_eq]
        omega
      rw [hword, Nat.not_le]
      obtain ⟨hreturned, hrefused⟩ := runs_return_negative hlen
      exact ⟨hreturned, fun hm => (hrefused hm).elim fun site hruns => ⟨_, hruns, rfl⟩⟩
  · cases n with
    | ofNat m => exact (runs_return_tooMany hlen).1
    | negSucc m => exact (runs_return_tooMany hlen).2

/-- One with so many zeros behind it. -/
def tenPower (k : Nat) : Int := ((10 ^ k : Nat) : Int)

theorem lt_length_toString {k : Nat} (hk : 0 < k) : k < (toString (10 ^ k)).length := by
  rw [Nat.toString_eq_repr, ← String.length_toList, Nat.toList_repr]
  exact Nat.lt_of_not_le fun hle =>
    Nat.lt_irrefl _ ((Nat.length_toDigits_le_iff (by decide) hk).1 hle)

/-- The two words at the ends, the two integers next to them, and a text that looks like a
comment. -/
theorem runs_literals_ends :
    '"' ∉ "/* it's\\ //".toList ∧
    Source.Runs "return -2147483648" (.ok (.ok (some (.int (-2147483648))), #[])) ∧
    Source.Runs "return 2147483647" (.ok (.ok (some (.int 2147483647)), #[])) ∧
    (∃ e, Source.Runs "return -2147483649" (.error (.compile e)) ∧
      e.fault.kind? = some .limit) ∧
    (∃ e, Source.Runs "return 2147483648" (.error (.compile e)) ∧ e.fault.kind? = some .limit) ∧
    (∃ e, Source.Runs ("return " ++ toString (tenPower 4300)) (.error (.lex e))) ∧
    Source.Runs "return \"/* it's\\ //\"" (.ok (.ok (some (.text "/* it's\\ //")), #[])) ∧
    Source.Runs "print_str(\"/* it's\\ //\")" (.ok (.ok none, #["/* it's\\ //\n"])) := by
  have hs : '"' ∉ "/* it's\\ //".toList := by decide
  have htoo : 4300 < (toString (tenPower 4300).natAbs).length := by
    rw [tenPower, Int.natAbs_natCast]
    exact lt_length_toString (by decide)
  have htexts := (runs_literals 0 hs).2.2
  refine ⟨hs, ?_, ?_, ?_, ?_, ((runs_literals (tenPower 4300) hs).2.1 htoo), htexts.1, htexts.2⟩
  · exact ((runs_literals (-2147483648) hs).1 (by decide)).1 (by decide)
  · exact ((runs_literals 2147483647 hs).1 (by decide)).1 (by decide)
  · exact ((runs_literals (-2147483649) hs).1 (by decide)).2 (by decide)
  · exact ((runs_literals 2147483648 hs).1 (by decide)).2 (by decide)

end Octet
