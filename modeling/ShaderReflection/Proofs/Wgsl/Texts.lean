import Mathlib.Computability.Language
import Mathlib.Data.List.Nodup
import Mathlib.Data.List.TakeWhile
import ShaderReflection.Proofs.Grammar.Reading
import ShaderReflection.Wgsl.Language

/-!
# How terminals are written

The set of texts of each terminal, put together from characters by union, concatenation and
repetition, and what the readers of `ShaderReflection.Wgsl.Lexeme` have to do with it: a reader
reads only texts of its terminal (`Lexeme.mem_texts_of_reads`), and reads a text of its terminal in
full if a space or nothing comes behind it (`Lexeme.reads_of_mem_texts`).
-/

namespace ShaderReflection.Wgsl

open ShaderReflection.Grammar ShaderReflection.Text Computability

abbrev Texts : Type := Language Char

namespace Texts

/-- The texts of one character from a class. -/
def one (isMember : Char → Bool) : Texts := {text | ∃ char, isMember char = true ∧ text = [char]}

def exactly (char : Char) : Texts := {[char]}

def anyOf (texts : List String) : Texts := {text | text ∈ texts.map String.toList}

def maybe (texts : Texts) : Texts := 1 + texts

def several (texts : Texts) : Texts := texts * texts∗

variable {isMember : Char → Bool} {text : List Char}

theorem mem_one : text ∈ one isMember ↔ ∃ char, isMember char = true ∧ text = [char] :=
  Iff.rfl

theorem mem_exactly {char : Char} : text ∈ exactly char ↔ text = [char] :=
  Iff.rfl

theorem mem_star_one : text ∈ (one isMember)∗ ↔ ∀ char ∈ text, isMember char = true := by
  rw [Language.mem_kstar]
  constructor
  · rintro ⟨pieces, rfl, each⟩ char isChar
    rcases List.mem_flatten.mp isChar with ⟨piece, isPiece, inPiece⟩
    rcases each piece isPiece with ⟨only, isOnly, rfl⟩
    rw [List.mem_singleton.mp inPiece]
    exact isOnly
  · intro each
    refine ⟨text.map fun char => [char], ?_, ?_⟩
    · simp [← List.flatMap_def]
    · intro piece isPiece
      rcases List.mem_map.mp isPiece with ⟨char, isChar, rfl⟩
      exact ⟨char, each char isChar, rfl⟩

theorem mem_several_one :
    text ∈ several (one isMember) ↔ text ≠ [] ∧ ∀ char ∈ text, isMember char = true := by
  rw [several, Language.mem_mul]
  constructor
  · rintro ⟨front, ⟨char, isChar, rfl⟩, rest, isRest, rfl⟩
    rw [List.singleton_append]
    exact ⟨List.cons_ne_nil _ _, List.forall_mem_cons.mpr ⟨isChar, mem_star_one.mp isRest⟩⟩
  · rintro ⟨isFull, each⟩
    cases text with
    | nil => exact absurd rfl isFull
    | cons char text =>
        rcases List.forall_mem_cons.mp each with ⟨isChar, isRest⟩
        exact ⟨[char], ⟨char, isChar, rfl⟩, text, mem_star_one.mpr isRest, rfl⟩

@[simp] theorem nil_mem_mul {left right : Texts} :
    [] ∈ left * right ↔ [] ∈ left ∧ [] ∈ right := by
  rw [Language.mem_mul]
  constructor
  · rintro ⟨front, isFront, back, isBack, isEmpty⟩
    rcases List.append_eq_nil_iff.mp isEmpty with ⟨rfl, rfl⟩
    exact ⟨isFront, isBack⟩
  · rintro ⟨isFront, isBack⟩
    exact ⟨[], isFront, [], isBack, rfl⟩

@[simp] theorem nil_notMem_one : [] ∉ one isMember := by
  simp [mem_one]

/-! ## The classes of lexemes -/

def digit : Texts := one Char.isDigit

/-- A zero alone, or digits of which the first is not zero. -/
def decimal : Texts := exactly '0' + one (fun char => char.isDigit && char != '0') * digit∗

theorem isDigit_of_mem_decimal (isText : text ∈ decimal) :
    ∀ char ∈ text, char.isDigit = true := by
  rcases isText with isZero | ⟨_, ⟨char, isFirst, rfl⟩, rest, isRest, rfl⟩
  · rw [mem_exactly.mp isZero]
    simp
  · simp only [Bool.and_eq_true] at isFirst
    exact List.forall_mem_cons.mpr ⟨isFirst.1, mem_star_one.mp isRest⟩

theorem mem_decimal (isText : text ∈ decimal) :
    text = ['0'] ∨ ∃ char rest, text = char :: rest ∧ char.isDigit = true ∧ char ≠ '0' ∧
      ∀ other ∈ rest, other.isDigit = true := by
  rcases isText with isZero | ⟨_, ⟨char, isFirst, rfl⟩, rest, isRest, rfl⟩
  · exact .inl isZero
  · simp only [Bool.and_eq_true, bne_iff_ne] at isFirst
    exact .inr ⟨char, rest, rfl, isFirst.1, isFirst.2, mem_star_one.mp isRest⟩

def hexadecimal : Texts :=
  exactly '0' * one (['x', 'X'].contains ·) * several (one Lexeme.isHexDigit)

def exponent : Texts :=
  one (['e', 'E'].contains ·) * maybe (one (['+', '-'].contains ·)) * several digit

/-- A number with a point or an exponent. -/
def fractional : Texts :=
  (several digit * exactly '.' * digit∗ + exactly '.' * several digit) * maybe exponent +
    several digit * exponent

def intSuffix : Texts := one (['i', 'u'].contains ·)

def floatSuffix : Texts := one (['f', 'h'].contains ·)

def binaryOperators : List String := [
  "&&", "||", "==", "!=", "<=", ">=", "<<", ">>", "<", ">", "+", "-", "*", "/", "%", "&", "|", "^"]

def unaryOperators : List String := ["-", "!", "~", "&", "*"]

/-- A character of a string, or a backslash with the character that it takes with it. -/
def stringPiece : Texts :=
  one (fun char => char != '"' && char != '\\' && char != '\n') +
    exactly '\\' * one (fun char => char != '\n')

/-- Text without braces and without the beginning of a comment, that begins with something other
than white space. -/
structure IsBodyText (text : List Char) : Prop where
  begins : ∃ char ∈ text.head?, isBlank char = false
  noBrace : ∀ char ∈ text, char ≠ '\x7b' ∧ char ≠ '\x7d'
  noLineComment : ¬ ['/', '/'] <:+: text
  noBlockComment : ¬ ['/', '*'] <:+: text

end Texts

open Texts

/-- How a terminal is written. -/
def Terminal.texts : Terminal → Texts
  | identifier => one Lexeme.isWordStart * (one Lexeme.isWordPart)∗
  | intLiteral => (Texts.hexadecimal + Texts.decimal) * maybe intSuffix
  | floatLiteral => Texts.fractional * maybe floatSuffix + Texts.decimal * floatSuffix
  | stringLiteral => exactly '"' * stringPiece∗ * exactly '"'
  | binaryOperator => anyOf binaryOperators
  | unaryOperator => anyOf unaryOperators
  | bodyText => {text | IsBodyText text}
  | terminal => {text | ⟨text, terminal⟩ ∈ spellings}

namespace Lexeme

variable {text word rest : List Char}

/-! ## Words -/

theorem word_sound (reads : Lexeme.word text = some word) :
    word <+: text ∧ word ∈ Terminal.texts .identifier := by
  cases text with
  | nil => cases reads
  | cons char text =>
      rw [Lexeme.word] at reads
      split at reads
      · rename_i isStart
        cases reads
        refine ⟨List.cons_prefix_cons.mpr ⟨rfl, List.takeWhile_prefix _⟩, ?_⟩
        exact ⟨[char], ⟨char, isStart, rfl⟩, _,
          mem_star_one.mpr fun other => List.mem_takeWhile_imp, rfl⟩
      · cases reads

/-! ## Numbers -/

theorem oneOf_isPrefix (letters text : List Char) : oneOf letters text <+: text := by
  cases text with
  | nil => exact List.prefix_rfl
  | cons char text =>
      rw [oneOf]
      split
      · exact List.cons_prefix_cons.mpr ⟨rfl, List.nil_prefix⟩
      · exact List.nil_prefix

theorem oneOf_mem (letters text : List Char) :
    oneOf letters text ∈ maybe (one (letters.contains ·)) := by
  cases text with
  | nil => exact .inl rfl
  | cons char text =>
      rw [oneOf]
      split
      · rename_i isLetter
        exact .inr ⟨char, isLetter, rfl⟩
      · exact .inl rfl

theorem followed_isPrefix {read : List Char → List Char} {front : List Char}
    (inFront : front <+: text) (reads : ∀ text, read text <+: text) :
    followed text read front <+: text := by
  rcases inFront with ⟨rest, rfl⟩
  rw [followed, List.drop_left]
  exact List.prefix_append_right_inj front |>.mpr (reads rest)

theorem decimal_isPrefix (text : List Char) : decimal text <+: text := by
  rw [decimal.eq_def]
  split
  · exact List.cons_prefix_cons.mpr ⟨rfl, List.nil_prefix⟩
  · exact List.takeWhile_prefix _

theorem decimal_mem (isFull : decimal text ≠ []) : decimal text ∈ Texts.decimal := by
  rw [decimal.eq_def] at isFull ⊢
  split
  · exact .inl rfl
  · rename_i notZero
    simp only at isFull
    cases text with
    | nil => exact absurd rfl isFull
    | cons char text =>
        rw [List.takeWhile_cons] at isFull ⊢
        split
        · rename_i isDigit
          have isOther : char ≠ '0' := fun isZero => notZero text (by rw [isZero])
          refine .inr ⟨[char], ⟨char, by simp [isDigit, isOther], rfl⟩, _, ?_, rfl⟩
          exact mem_star_one.mpr fun other => List.mem_takeWhile_imp
        · rename_i notDigit
          simp [notDigit] at isFull

theorem takeWhile_mem (isMember : Char → Bool) (text : List Char) :
    text.takeWhile isMember ∈ (one isMember)∗ :=
  mem_star_one.mpr fun _ => List.mem_takeWhile_imp

theorem intLiteral_sound (reads : intLiteral text = some word) :
    word <+: text ∧ word ∈ Terminal.texts .intLiteral := by
  simp only [intLiteral] at reads
  split at reads
  · -- A hexadecimal number.
    rename_i front isHexadecimal
    cases reads
    split at isHexadecimal
    · rename_i mark rest
      split at isHexadecimal
      · rename_i isMark
        split at isHexadecimal
        · cases isHexadecimal
        · rename_i isFull
          cases isHexadecimal
          have inFront : '0' :: mark :: rest.takeWhile isHexDigit <+: '0' :: mark :: rest :=
            List.cons_prefix_cons.mpr
              ⟨rfl, List.cons_prefix_cons.mpr ⟨rfl, List.takeWhile_prefix _⟩⟩
          have digits : rest.takeWhile isHexDigit ∈ several (one isHexDigit) :=
            mem_several_one.mpr ⟨isFull, fun _ => List.mem_takeWhile_imp⟩
          have isText : '0' :: mark :: rest.takeWhile isHexDigit ∈ Texts.hexadecimal :=
            ⟨['0', mark], ⟨['0'], rfl, [mark], ⟨mark, by simpa using isMark, rfl⟩, rfl⟩, _,
              digits, rfl⟩
          exact ⟨followed_isPrefix inFront (oneOf_isPrefix _),
            Language.append_mem_mul (.inl isText) (oneOf_mem _ _)⟩
      · cases isHexadecimal
    · cases isHexadecimal
  · split at reads
    · cases reads
    · rename_i isFull
      cases reads
      exact ⟨followed_isPrefix (decimal_isPrefix text) (oneOf_isPrefix _),
        Language.append_mem_mul (.inr (decimal_mem isFull)) (oneOf_mem _ _)⟩

theorem exponent_isPrefix (text : List Char) : exponent text <+: text := by
  cases text with
  | nil => exact List.prefix_rfl
  | cons mark text =>
      simp only [exponent]
      split
      · split
        · exact List.nil_prefix
        · rename_i digits isFull
          rw [List.cons_append, List.cons_prefix_cons]
          exact ⟨rfl, followed_isPrefix (oneOf_isPrefix _ _) fun _ => List.takeWhile_prefix _⟩
      · exact List.nil_prefix

theorem exponent_mem (text : List Char) : exponent text ∈ maybe Texts.exponent := by
  cases text with
  | nil => exact .inl rfl
  | cons mark text =>
      simp only [exponent]
      split
      · rename_i isMark
        split
        · exact .inl rfl
        · rename_i isFull
          refine .inr ⟨mark :: oneOf ['+', '-'] text, ?_, _, ?_, rfl⟩
          · exact ⟨[mark], ⟨mark, by simpa using isMark, rfl⟩, _, oneOf_mem _ _, rfl⟩
          · exact mem_several_one.mpr ⟨isFull, fun _ => List.mem_takeWhile_imp⟩
      · exact .inl rfl

/-- A number with a point or an exponent is cut at the end of its first digits. -/
theorem fractional_eq (text : List Char) :
    ∃ whole tail, whole ++ tail = text ∧ whole ∈ digit∗ ∧
      fractional text =
        match tail with
        | '.' :: rest =>
            let part := rest.takeWhile Char.isDigit
            if whole.isEmpty && part.isEmpty then []
            else followed text exponent (whole ++ '.' :: part)
        | rest =>
            match whole, exponent rest with
            | [], _ => []
            | _, [] => []
            | _, power => whole ++ power := by
  refine ⟨text.takeWhile Char.isDigit, text.drop (text.takeWhile Char.isDigit).length, ?_,
    takeWhile_mem _ _, rfl⟩
  exact List.prefix_iff_eq_append.mp (List.takeWhile_prefix _)

theorem fractional_isPrefix (text : List Char) : fractional text <+: text := by
  rcases fractional_eq text with ⟨whole, tail, rfl, -, equal⟩
  rw [equal]
  split
  · rename_i rest
    simp only
    split
    · exact List.nil_prefix
    · refine followed_isPrefix ?_ exponent_isPrefix
      rw [List.prefix_append_right_inj, List.cons_prefix_cons]
      exact ⟨rfl, List.takeWhile_prefix _⟩
  · split
    · exact List.nil_prefix
    · exact List.nil_prefix
    · rw [List.prefix_append_right_inj]
      exact exponent_isPrefix _

theorem mem_several_digit (whole : List Char) (isWhole : whole ∈ digit∗) (isFull : whole ≠ []) :
    whole ∈ several digit :=
  mem_several_one.mpr ⟨isFull, mem_star_one.mp isWhole⟩

theorem fractional_mem (text : List Char) :
    fractional text = [] ∨ fractional text ∈ Texts.fractional := by
  rcases fractional_eq text with ⟨whole, tail, rfl, isWhole, equal⟩
  rw [equal]
  split
  · rename_i rest
    simp only
    split
    · exact .inl rfl
    · rename_i notBoth
      refine .inr (.inl (Language.append_mem_mul ?_ (exponent_mem _)))
      have isPart := takeWhile_mem Char.isDigit rest
      by_cases noWhole : whole = []
      · subst noWhole
        exact .inr ⟨['.'], rfl, _, mem_several_digit _ isPart (by simpa using notBoth), rfl⟩
      · refine .inl ⟨whole ++ ['.'], ?_, _, isPart, by simp⟩
        exact ⟨whole, mem_several_digit whole isWhole noWhole, ['.'], rfl, rfl⟩
  · split
    · exact .inl rfl
    · exact .inl rfl
    · rename_i isFull hasPower
      have isPower := (exponent_mem tail).resolve_left hasPower
      exact .inr (.inr ⟨_, mem_several_digit _ isWhole isFull, _, isPower, rfl⟩)

theorem floatLiteral_sound (reads : floatLiteral text = some word) :
    word <+: text ∧ word ∈ Terminal.texts .floatLiteral := by
  rw [floatLiteral] at reads
  split at reads
  · split at reads
    · cases reads
    · rename_i isFull
      split at reads
      · cases reads
      · rename_i hasSuffix
        cases reads
        have isSuffix := (oneOf_mem _ _).resolve_left hasSuffix
        exact ⟨followed_isPrefix (decimal_isPrefix text) (oneOf_isPrefix _),
          .inr (Language.append_mem_mul (decimal_mem isFull) isSuffix)⟩
  · rename_i isFull
    cases reads
    have isFraction := (fractional_mem text).resolve_left isFull
    exact ⟨followed_isPrefix (fractional_isPrefix text) (oneOf_isPrefix _),
      .inl (Language.append_mem_mul isFraction (oneOf_mem _ _))⟩

/-! ## Strings -/

theorem append_mem_string {piece rest : List Char} (isPiece : piece ∈ stringPiece)
    (isRest : rest ∈ stringPiece∗ * exactly '"') :
    piece ++ rest ∈ stringPiece∗ * exactly '"' := by
  rcases Language.mem_mul.mp isRest with ⟨pieces, arePieces, quote, isQuote, rfl⟩
  have further : stringPiece * stringPiece∗ ≤ stringPiece∗ := mul_kstar_le_kstar
  rw [← List.append_assoc]
  exact Language.append_mem_mul (further (Language.append_mem_mul isPiece arePieces)) isQuote

theorem stringRest_sound (reads : stringRest text = some word) :
    word <+: text ∧ word ∈ stringPiece∗ * exactly '"' := by
  fun_induction stringRest text generalizing word with
  | case1 => cases reads
  | case2 text =>
      cases reads
      exact ⟨List.cons_prefix_cons.mpr ⟨rfl, List.nil_prefix⟩,
        ⟨[], Language.nil_mem_kstar _, ['"'], rfl, rfl⟩⟩
  | case3 => cases reads
  | case4 => cases reads
  | case5 char text notLine induction =>
      rcases Option.map_eq_some_iff.mp reads with ⟨inner, isInner, rfl⟩
      rcases induction isInner with ⟨inFront, isText⟩
      have isPiece : ['\\', char] ∈ stringPiece :=
        .inr ⟨['\\'], rfl, [char], ⟨char, by simpa using notLine, rfl⟩, rfl⟩
      refine ⟨?_, append_mem_string isPiece isText⟩
      exact List.cons_prefix_cons.mpr ⟨rfl, List.cons_prefix_cons.mpr ⟨rfl, inFront⟩⟩
  | case6 => cases reads
  | case7 char text notQuote notLine _ _ notBackslash induction =>
      rcases Option.map_eq_some_iff.mp reads with ⟨inner, isInner, rfl⟩
      rcases induction isInner with ⟨inFront, isText⟩
      have isPiece : [char] ∈ stringPiece :=
        .inl ⟨char, by simp [notBackslash]; exact ⟨notQuote, notLine⟩, rfl⟩
      exact ⟨List.cons_prefix_cons.mpr ⟨rfl, inFront⟩, append_mem_string isPiece isText⟩

theorem stringLiteral_sound (reads : stringLiteral text = some word) :
    word <+: text ∧ word ∈ Terminal.texts .stringLiteral := by
  rw [stringLiteral.eq_def] at reads
  split at reads
  · rcases Option.map_eq_some_iff.mp reads with ⟨inner, isInner, rfl⟩
    rcases stringRest_sound isInner with ⟨inFront, isText⟩
    refine ⟨List.cons_prefix_cons.mpr ⟨rfl, inFront⟩, ?_⟩
    have isWhole : ['"'] ++ inner ∈ exactly '"' * (stringPiece∗ * exactly '"') :=
      Language.append_mem_mul (mem_exactly.mpr rfl) isText
    rw [← mul_assoc] at isWhole
    exact isWhole
  · cases reads

/-! ## Operators -/

theorem binaryOperator_sound (reads : binaryOperator text = some word) :
    word <+: text ∧ word ∈ Terminal.texts .binaryOperator := by
  have double : ∀ word ∈ doubleOperators, word ∈ binaryOperators.map String.toList := by decide
  have single : ∀ word ∈ singleOperators.map ([·]), word ∈ binaryOperators.map String.toList := by
    decide
  cases text with
  | nil => cases reads
  | cons char text =>
      rw [binaryOperator] at reads
      split at reads
      · rename_i isDouble
        cases reads
        exact ⟨List.cons_prefix_cons.mpr ⟨rfl, List.take_prefix _ _⟩,
          double _ (List.contains_iff_mem.mp isDouble)⟩
      · split at reads
        · rename_i isSingle
          cases reads
          exact ⟨List.cons_prefix_cons.mpr ⟨rfl, List.nil_prefix⟩,
            single _ (List.mem_map_of_mem (List.contains_iff_mem.mp isSingle))⟩
        · cases reads

theorem unaryOperator_sound (reads : unaryOperator text = some word) :
    word <+: text ∧ word ∈ Terminal.texts .unaryOperator := by
  have single : ∀ word ∈ Lexeme.unaryOperators.map ([·]),
      word ∈ Texts.unaryOperators.map String.toList := by
    decide
  cases text with
  | nil => cases reads
  | cons char text =>
      rw [unaryOperator] at reads
      split at reads
      · rename_i isSingle
        cases reads
        exact ⟨List.cons_prefix_cons.mpr ⟨rfl, List.nil_prefix⟩,
          single _ (List.mem_map_of_mem (List.contains_iff_mem.mp isSingle))⟩
      · cases reads

/-! ## Bodies -/

theorem bodyRun_isPrefix (text : List Char) : bodyRun text <+: text := by
  fun_induction bodyRun text with
  | case1 => exact List.prefix_rfl
  | case2 => exact List.nil_prefix
  | case3 => exact List.nil_prefix
  | case4 => exact List.nil_prefix
  | case5 char text _ _ _ induction => exact List.cons_prefix_cons.mpr ⟨rfl, induction⟩

theorem bodyRun_noBrace (text : List Char) :
    ∀ char ∈ bodyRun text, char ≠ '\x7b' ∧ char ≠ '\x7d' := by
  fun_induction bodyRun text with
  | case1 => simp
  | case2 => simp
  | case3 => simp
  | case4 => simp
  | case5 char text _ _ notBrace induction =>
      exact List.forall_mem_cons.mpr ⟨not_or.mp notBrace, induction⟩

/-- A run ends before a slash that opens a comment. -/
theorem bodyRun_noComment {mark : Char} (isMark : mark = '/' ∨ mark = '*') (text : List Char) :
    ¬ ['/', mark] <:+: bodyRun text := by
  fun_induction bodyRun text with
  | case1 => simp
  | case2 => simp
  | case3 => simp
  | case4 => simp
  | case5 char text notLine notBlock _ induction =>
      intro isInfix
      rcases List.infix_cons_iff.mp isInfix with inFront | later
      · rcases List.cons_prefix_cons.mp inFront with ⟨rfl, next⟩
        rcases next.trans (bodyRun_isPrefix text) with ⟨rest, rfl⟩
        rcases isMark with rfl | rfl
        · exact notLine rest rfl rfl
        · exact notBlock rest rfl rfl
      · exact induction later

theorem bodyText_sound (reads : bodyText text = some word) :
    word <+: text ∧ word ∈ Terminal.texts .bodyText := by
  cases text with
  | nil => cases reads
  | cons char text =>
      rw [bodyText] at reads
      split at reads
      · cases reads
      · rename_i notBlank
        split at reads
        · cases reads
        · rename_i isFull
          cases reads
          refine ⟨bodyRun_isPrefix _, ?_, bodyRun_noBrace _, bodyRun_noComment (.inl rfl) _,
            bodyRun_noComment (.inr rfl) _⟩
          rcases List.exists_cons_of_ne_nil isFull with ⟨first, rest, equal⟩
          have inFront := bodyRun_isPrefix (char :: text)
          rw [equal] at inFront ⊢
          rcases List.cons_prefix_cons.mp inFront with ⟨rfl, -⟩
          exact ⟨first, rfl, by simpa using notBlank⟩

/-! ## Trivia -/

theorem space_isPrefix (reads : space text = some word) : word <+: text ∧ word ≠ [] := by
  rw [space] at reads
  split at reads
  · cases reads
  · rename_i isFull
    cases reads
    exact ⟨List.takeWhile_prefix _, isFull⟩

theorem lineComment_isPrefix (reads : lineComment text = some word) :
    word <+: text ∧ word ≠ [] := by
  rw [lineComment.eq_def] at reads
  split at reads
  · cases reads
    refine ⟨?_, List.cons_ne_nil _ _⟩
    exact List.cons_prefix_cons.mpr
      ⟨rfl, List.cons_prefix_cons.mpr ⟨rfl, List.takeWhile_prefix _⟩⟩
  · cases reads

theorem commentRest_isPrefix (reads : commentRest text = some word) : word <+: text := by
  fun_induction commentRest text generalizing word with
  | case1 => cases reads
  | case2 =>
      cases reads
      exact List.cons_prefix_cons.mpr ⟨rfl, List.cons_prefix_cons.mpr ⟨rfl, List.nil_prefix⟩⟩
  | case3 char text _ induction =>
      rcases Option.map_eq_some_iff.mp reads with ⟨inner, isInner, rfl⟩
      exact List.cons_prefix_cons.mpr ⟨rfl, induction isInner⟩

theorem blockComment_isPrefix (reads : blockComment text = some word) :
    word <+: text ∧ word ≠ [] := by
  rw [blockComment.eq_def] at reads
  split at reads
  · rcases Option.map_eq_some_iff.mp reads with ⟨inner, isInner, rfl⟩
    refine ⟨?_, List.cons_ne_nil _ _⟩
    exact List.cons_prefix_cons.mpr
      ⟨rfl, List.cons_prefix_cons.mpr ⟨rfl, commentRest_isPrefix isInner⟩⟩
  · cases reads

/-! ## The lexicon -/

theorem patterns_sound {pattern : Pattern Terminal} (isPattern : pattern ∈ patterns)
    (reads : pattern.read text = some word) :
    word <+: text ∧
      match pattern.terminal with
      | some letter => word ∈ letter.texts
      | none => word ≠ [] := by
  simp only [patterns, List.mem_cons, List.not_mem_nil, or_false] at isPattern
  rcases isPattern with rfl | rfl | rfl | rfl | rfl | rfl | rfl | rfl | rfl | rfl
  · exact floatLiteral_sound reads
  · exact bodyText_sound reads
  · exact intLiteral_sound reads
  · exact word_sound reads
  · exact stringLiteral_sound reads
  · exact blockComment_isPrefix reads
  · exact lineComment_isPrefix reads
  · exact space_isPrefix reads
  · exact binaryOperator_sound reads
  · exact unaryOperator_sound reads

/-- The texts of a terminal with a spelling are its spellings. -/
theorem texts_of_mem_spellings {letter : Terminal} (isSpelling : ⟨word, letter⟩ ∈ spellings) :
    letter.texts = {text | ⟨text, letter⟩ ∈ spellings} := by
  have fixed : ∀ spelling ∈ spellings, spelling.terminal ∉ [Terminal.identifier, .intLiteral,
      .floatLiteral, .stringLiteral, .bodyText, .binaryOperator, .unaryOperator] := by
    decide
  have isFixed := fixed _ isSpelling
  cases letter
  case identifier | intLiteral | floatLiteral | stringLiteral | bodyText | binaryOperator |
      unaryOperator => simp at isFixed
  all_goals rfl

theorem mem_texts_of_mem_spellings {letter : Terminal} (isSpelling : ⟨word, letter⟩ ∈ spellings) :
    word ∈ letter.texts := by
  rw [texts_of_mem_spellings isSpelling]
  exact isSpelling

theorem mem_spellings_of_fixed {text : String} {letter : Terminal}
    (isFixed : (text, letter) ∈ fixedSpellings) : ⟨text.toList, letter⟩ ∈ spellings :=
  List.mem_append_left _ (List.mem_map_of_mem isFixed)

/-- Keywords and marks are written in one way. -/
theorem eq_of_mem_texts (text : String) {letter : Terminal}
    (isFixed : (text, letter) ∈ fixedSpellings) (isText : word ∈ letter.texts) :
    word = text.toList := by
  have distinct : (fixedSpellings.map Prod.snd).Nodup := by decide
  have noTypeName : ∀ entry ∈ fixedSpellings, entry.2 ≠ .typeName := by decide
  rw [texts_of_mem_spellings (mem_spellings_of_fixed isFixed)] at isText
  rcases List.mem_append.mp isText with isMember | isMember
  · rcases List.mem_map.mp isMember with ⟨⟨own, _⟩, isEntry, ⟨⟩⟩
    cases List.inj_on_of_nodup_map distinct isEntry isFixed rfl
    rfl
  · rcases List.mem_map.mp isMember with ⟨name, -, ⟨⟩⟩
    exact absurd rfl (noTypeName _ isFixed)

theorem spellings_ne_nil : ∀ spelling ∈ spellings, spelling.text ≠ [] := by decide

theorem nil_notMem_decimal : [] ∉ Texts.decimal := by
  simp [Texts.decimal, Language.mem_add, mem_exactly, -add_eq_sup]

theorem nil_notMem_fractional : [] ∉ Texts.fractional := by
  simp [Texts.fractional, several, digit, Language.mem_add, mem_exactly, -add_eq_sup]

theorem nil_notMem_texts (letter : Terminal) : [] ∉ letter.texts := by
  cases letter
  case identifier =>
    change [] ∉ one isWordStart * (one isWordPart)∗
    simp
  case stringLiteral =>
    change [] ∉ exactly '"' * stringPiece∗ * exactly '"'
    simp [mem_exactly]
  case intLiteral =>
    change [] ∉ (Texts.hexadecimal + Texts.decimal) * maybe intSuffix
    simp [Texts.hexadecimal, nil_notMem_decimal, Language.mem_add, mem_exactly, -add_eq_sup]
  case floatLiteral =>
    change [] ∉ Texts.fractional * maybe floatSuffix + Texts.decimal * floatSuffix
    simp [nil_notMem_fractional, nil_notMem_decimal, Language.mem_add, -add_eq_sup]
  case bodyText =>
    rintro ⟨⟨char, isFirst, -⟩, -, -, -⟩
    simp at isFirst
  case binaryOperator => exact (by decide : [] ∉ binaryOperators.map String.toList)
  case unaryOperator => exact (by decide : [] ∉ Texts.unaryOperators.map String.toList)
  all_goals exact fun isText => spellings_ne_nil _ isText rfl

theorem lexicon_honest : lexicon.Honest where
  patterns := by
    intro pattern isPattern text word reads
    rcases patterns_sound isPattern reads with ⟨inFront, isText⟩
    refine ⟨inFront, ?_⟩
    split at isText
    · rintro rfl
      exact nil_notMem_texts _ isText
    · exact isText
  spellings := spellings_ne_nil

/-- Wherever a terminal is read, it is read from one of its texts. -/
theorem mem_texts_of_read {accepted : Terminal → Bool} {letter : Terminal}
    (reads : (lexicon.restrict accepted).read text = some ⟨some letter, word⟩) :
    word ∈ letter.texts := by
  rcases Lexicon.read_eq_some reads with isSpelling | ⟨pattern, isPattern, isLetter, isRead, -⟩
  · exact mem_texts_of_mem_spellings (List.mem_filter.mp isSpelling).1
  · have isText := (patterns_sound (List.mem_filter.mp isPattern).1 isRead).2
    rw [isLetter] at isText
    exact isText

theorem eq_of_mem_texts_leftBrace (isText : word ∈ Terminal.texts .leftBrace) :
    word = ['\x7b'] :=
  eq_of_mem_texts "\x7b" (by simp [fixedSpellings]) isText

theorem eq_of_mem_texts_rightBrace (isText : word ∈ Terminal.texts .rightBrace) :
    word = ['\x7d'] :=
  eq_of_mem_texts "\x7d" (by simp [fixedSpellings]) isText

end Lexeme

end ShaderReflection.Wgsl
