import ShaderReflection.Proofs.Wgsl.Boundaries

/-!
# A plain scanner of braces

A scanner that knows comments and braces and nothing else finds the brace that closes a body by
counting (`Brace.scan`). It skips the trivia between the tokens of a body and the texts of the body
(`Brace.scan_skipped`, `Brace.scan_plain`), so it counts the braces that are tokens
(`Reads.scan_braces`) and stops at the token that closes the body (`Covers.scan_closing`).
-/

namespace ShaderReflection.Wgsl

open ShaderReflection.Grammar ShaderReflection.Text Lexeme

/-- What a scanner of braces is in. -/
inductive Region where
  | code | lineComment | blockComment
deriving DecidableEq, Repr

/-- A brace that a scanner meets. -/
structure Brace where
  region : Region
  offset : Nat
deriving DecidableEq, Repr

namespace Brace

def isBrace (char : Char) : Bool := char == '\x7b' || char == '\x7d'

/-- Where the braces of a text stand that begins at an offset. -/
def offsets (offset : Nat) (text : List Char) : List Nat :=
  ((text.zipIdx offset).filter fun entry => isBrace entry.1).map Prod.snd

/-- The braces of a text that lies in one region. -/
def row (region : Region) (offset : Nat) (text : List Char) : List Brace :=
  (offsets offset text).map fun place => ⟨region, place⟩

/-- The braces that a scanner meets from an offset on, up to the one that closes the last of the
braces that are open. A comment on a line ends with the line, a comment between marks behind the
next closing mark, and braces in comments are not counted. -/
def scan : Region → (depth offset : Nat) → List Char → Option (List Brace)
  | _, _, _, [] => none
  | .code, depth, offset, '/' :: '/' :: text => scan .lineComment depth (offset + 2) text
  | .code, depth, offset, '/' :: '*' :: text => scan .blockComment depth (offset + 2) text
  | .code, depth, offset, char :: text =>
      if char = '\x7b' then
        (scan .code (depth + 1) (offset + 1) text).map (⟨.code, offset⟩ :: ·)
      else if char = '\x7d' then
        if depth ≤ 1 then some [⟨.code, offset⟩]
        else (scan .code (depth - 1) (offset + 1) text).map (⟨.code, offset⟩ :: ·)
      else scan .code depth (offset + 1) text
  | .lineComment, depth, offset, char :: text =>
      if char = '\n' then scan .code depth (offset + 1) text
      else (scan .lineComment depth (offset + 1) text).map (row .lineComment offset [char] ++ ·)
  | .blockComment, depth, offset, '*' :: '/' :: text => scan .code depth (offset + 2) text
  | .blockComment, depth, offset, char :: text =>
      (scan .blockComment depth (offset + 1) text).map (row .blockComment offset [char] ++ ·)

/-- Where the braces stand that are counted. -/
def counted (braces : List Brace) : List Nat :=
  (braces.filter fun brace => brace.region = .code).map Brace.offset

variable {region : Region} {depth offset place : Nat} {text front rest word inner : List Char}
  {found : List Brace}

/-! ## Offsets of braces -/

theorem offsets_append : offsets offset (front ++ rest) =
    offsets offset front ++ offsets (offset + front.length) rest := by
  rw [offsets, List.zipIdx_append, List.filter_append, List.map_append]
  rfl

theorem mem_offsets : place ∈ offsets offset text ↔
    offset ≤ place ∧ ∃ char ∈ text[place - offset]?, isBrace char = true := by
  rw [offsets, List.mem_map]
  constructor
  · rintro ⟨⟨char, place⟩, isEntry, rfl⟩
    rcases List.mem_filter.mp isEntry with ⟨inText, isBrace⟩
    rcases List.mk_mem_zipIdx_iff_le_and_getElem?_sub.mp inText with ⟨behind, isChar⟩
    exact ⟨behind, char, isChar, isBrace⟩
  · rintro ⟨behind, char, isChar, isBrace⟩
    refine ⟨(char, place), List.mem_filter.mpr ⟨?_, isBrace⟩, rfl⟩
    exact List.mk_mem_zipIdx_iff_le_and_getElem?_sub.mpr ⟨behind, isChar⟩

theorem pairwise_offsets : (offsets offset text).Pairwise (· < ·) := by
  have inOrder := (List.filter_sublist (p := fun entry : Char × Nat => isBrace entry.1)
    (l := text.zipIdx offset)).map Prod.snd
  rw [List.zipIdx_map_snd] at inOrder
  exact List.Pairwise.sublist inOrder List.pairwise_lt_range'

theorem row_append : row region offset (front ++ rest) =
    row region offset front ++ row region (offset + front.length) rest := by
  rw [row, row, row, offsets_append, List.map_append]

theorem counted_append (left right : List Brace) :
    counted (left ++ right) = counted left ++ counted right := by
  rw [counted, counted, counted, List.filter_append, List.map_append]

theorem map_offset_row : (row region offset text).map Brace.offset = offsets offset text := by
  rw [row, List.map_map]
  exact List.map_id _

/-- No brace in a comment is counted. -/
theorem counted_row (isComment : region ≠ .code) : counted (row region offset text) = [] := by
  rw [counted, row, List.filter_map, List.filter_eq_nil_iff.mpr, List.map_nil, List.map_nil]
  intro place _ isCode
  exact isComment (of_decide_eq_true isCode)

/-- A brace that stands where one is counted is that one. -/
theorem region_of_mem_counted (inOrder : (found.map Brace.offset).Pairwise (· < ·)) {brace : Brace}
    (isFound : brace ∈ found) (isCounted : brace.offset ∈ counted found) :
    brace.region = .code := by
  rcases List.mem_map.mp isCounted with ⟨other, isOther, sameOffset⟩
  rcases List.mem_filter.mp isOther with ⟨inFound, isCode⟩
  have distinct : (found.map Brace.offset).Nodup := inOrder.imp Nat.ne_of_lt
  rw [← List.inj_on_of_nodup_map distinct inFound isFound sameOffset]
  exact of_decide_eq_true isCode

/-! ## What is skipped -/

theorem map_append (result : Option (List Brace)) (left right : List Brace) :
    (result.map (right ++ ·)).map (left ++ ·) = result.map (left ++ right ++ ·) := by
  rw [Option.map_map]
  congr 1
  funext braces
  exact (List.append_assoc left right braces).symm

theorem map_row (result : Option (List Brace)) (char : Char) (front : List Char) :
    (result.map (row region (offset + 1) front ++ ·)).map (row region offset [char] ++ ·) =
      result.map (row region offset (char :: front) ++ ·) := by
  have isRow : row region offset ([char] ++ front) =
      row region offset [char] ++ row region (offset + 1) front := row_append
  rw [map_append, ← isRow]
  rfl

/-- The scanner skips what stands in front of braces and comments. -/
theorem scan_plain (isRun : word <+: bodyRun (word ++ rest)) (depth offset : Nat) :
    scan .code depth offset (word ++ rest) = scan .code depth (offset + word.length) rest := by
  induction word generalizing offset with
  | nil => rfl
  | cons char word induction =>
      rw [List.cons_append, bodyRun.eq_def] at isRun
      split at isRun
      · simp at isRun
      · simp at isRun
      · simp at isRun
      · rename_i first text noLine noBlock isText
        cases isText
        split at isRun
        · simp at isRun
        · rename_i notBrace
          rw [not_or] at notBrace
          have later := induction (List.cons_prefix_cons.mp isRun).2 (offset + 1)
          rw [List.cons_append, scan, if_neg notBrace.1, if_neg notBrace.2, later,
            List.length_cons, Nat.add_right_comm, Nat.add_assoc]
          · exact noLine
          · exact noBlock

/-- A comment on a line ends where the line ends. -/
theorem scan_lineComment (isLine : '\n' ∉ inner) (ends : Stops (· != '\n') rest)
    (depth offset : Nat) :
    scan .lineComment depth offset (inner ++ rest) =
      (scan .code depth (offset + inner.length) rest).map (row .lineComment offset inner ++ ·) := by
  induction inner generalizing offset with
  | nil =>
      cases rest with
      | nil => rfl
      | cons char rest =>
          have isEnd : char = '\n' := by simpa using ends char rfl
          subst isEnd
          have skips : scan .code depth offset (['\n'] ++ rest) =
              scan .code depth (offset + 1) rest :=
            scan_plain (List.prefix_append ['\n'] (bodyRun rest)) depth offset
          have goesOn : scan .lineComment depth offset ('\n' :: rest) =
              scan .code depth (offset + 1) rest := by rw [scan, if_pos rfl]
          rw [List.nil_append, goesOn, ← skips]
          exact Option.map_id'.symm
  | cons char inner induction =>
      rw [List.mem_cons, not_or] at isLine
      rw [List.cons_append, scan, if_neg (Ne.symm isLine.1), induction isLine.2, map_row,
        List.length_cons, Nat.add_right_comm, Nat.add_assoc]

/-- A comment between marks ends behind the first closing mark. -/
theorem scan_blockComment (noEnd : ¬ ['*', '/'] <:+: inner) (rest : List Char)
    (depth offset : Nat) :
    scan .blockComment depth offset (inner ++ '*' :: '/' :: rest) =
      (scan .code depth (offset + (inner.length + 2)) rest).map
        (row .blockComment offset inner ++ ·) := by
  induction inner generalizing offset with
  | nil =>
      rw [List.nil_append, scan]
      exact Option.map_id'.symm
  | cons char inner induction =>
      have later := induction (fun isInfix => noEnd (List.infix_cons isInfix)) (offset + 1)
      have skips : scan .blockComment depth offset (char :: (inner ++ '*' :: '/' :: rest)) =
          (scan .blockComment depth (offset + 1) (inner ++ '*' :: '/' :: rest)).map
            (row .blockComment offset [char] ++ ·) := by
        rw [scan]
        rintro tail rfl isText
        cases inner with
        | nil => cases isText
        | cons next inner =>
            rw [(List.cons.inj isText).1] at noEnd
            exact noEnd (List.prefix_append ['*', '/'] inner).isInfix
      rw [List.cons_append, skips, later, map_row, List.length_cons, Nat.add_assoc]
      congr 2
      omega

/-! ## Passing a text -/

/-- The scanner meets the braces of a text and goes on with what stands behind the text. -/
structure Passes (depth last offset : Nat) (front rest : List Char) (found : List Brace) :
    Prop where
  scans : scan .code depth offset (front ++ rest) =
    (scan .code last (offset + front.length) rest).map (found ++ ·)
  meets : found.map Brace.offset = offsets offset front

theorem passes_nil : Passes depth depth offset [] rest [] :=
  ⟨Option.map_id'.symm, rfl⟩

theorem Passes.trans {middle last : Nat} {others : List Brace} {back : List Char}
    (passes : Passes depth middle offset front (back ++ rest) found)
    (further : Passes middle last (offset + front.length) back rest others) :
    Passes depth last offset (front ++ back) rest (found ++ others) where
  scans := by
    rw [List.append_assoc, passes.scans, further.scans, map_append, List.length_append,
      Nat.add_assoc]
  meets := by rw [List.map_append, passes.meets, further.meets, offsets_append]

theorem passes_opening : Passes depth (depth + 1) offset ['\x7b'] rest [⟨.code, offset⟩] :=
  ⟨rfl, rfl⟩

theorem passes_closing :
    Passes (depth + 2) (depth + 1) offset ['\x7d'] rest [⟨.code, offset⟩] :=
  ⟨rfl, rfl⟩

/-- The scanner stops at the brace that closes the last one. -/
theorem scan_closing : scan .code 1 offset ('\x7d' :: rest) = some [⟨.code, offset⟩] := rfl

theorem passes_plain (isRun : word <+: bodyRun (word ++ rest)) :
    Passes depth depth offset word rest [] where
  scans := by
    rw [scan_plain isRun depth offset]
    exact Option.map_id'.symm
  meets := by
    rw [offsets, List.filter_eq_nil_iff.mpr, List.map_nil, List.map_nil]
    intro entry isEntry isBrace
    have isMember := List.fst_mem_of_mem_zipIdx isEntry
    have notBrace := bodyRun_noBrace _ _ (isRun.subset isMember)
    simp [Brace.isBrace, notBrace] at isBrace

theorem isPrefix_bodyRun_of_spaces (areSpaces : ∀ char ∈ word, isSpace char = true) :
    word <+: bodyRun (word ++ rest) := by
  induction word with
  | nil => exact List.nil_prefix
  | cons char word induction =>
      rcases List.forall_mem_cons.mp areSpaces with ⟨isSpaced, others⟩
      have ne : ∀ other, isSpace other = false → char ≠ other := by
        rintro other notSpace rfl
        cases notSpace.symm.trans isSpaced
      have notSlash := ne '/' rfl
      rw [List.cons_append, bodyRun.eq_4, if_neg]
      · exact List.cons_prefix_cons.mpr ⟨rfl, induction others⟩
      · exact not_or.mpr ⟨ne _ rfl, ne _ rfl⟩
      · exact fun _ isSlash => absurd isSlash notSlash
      · exact fun _ isSlash => absurd isSlash notSlash

/-- No brace is counted in a piece of trivia. -/
theorem exists_passes_of_piece {kind : Trivia} (isText : word ∈ kind.texts)
    (ends : kind.Ends rest) (depth offset : Nat) :
    ∃ found, Passes depth depth offset word rest found ∧ counted found = [] := by
  cases kind with
  | space =>
      have areSpaces := (Texts.mem_several_one.mp isText).2
      exact ⟨[], passes_plain (isPrefix_bodyRun_of_spaces areSpaces), rfl⟩
  | lineComment =>
      rcases mem_lineComment.mp isText with ⟨inner, isLine, rfl⟩
      refine ⟨row .lineComment (offset + 2) inner, ⟨?_, map_offset_row⟩, counted_row nofun⟩
      have passes := scan_lineComment isLine ends depth (offset + 2)
      rw [Nat.add_right_comm] at passes
      exact passes
  | blockComment =>
      rcases isText with ⟨inner, rfl, noEnd⟩
      refine ⟨row .blockComment (offset + 2) inner, ⟨?_, ?_⟩, counted_row nofun⟩
      · have isText : '/' :: '*' :: inner ++ ['*', '/'] ++ rest =
            '/' :: '*' :: (inner ++ '*' :: '/' :: rest) := by simp
        have isStop : offset + ('/' :: '*' :: inner ++ ['*', '/']).length =
            offset + 2 + (inner.length + 2) := by
          simp only [List.length_append, List.length_cons, List.length_nil]
          omega
        rw [isText, isStop]
        exact scan_blockComment noEnd rest depth (offset + 2)
      · rw [map_offset_row, offsets_append]
        exact (List.append_nil _).symm

/-- No brace is counted in a row of trivia. -/
theorem exists_passes_of_skipped (skipped : Skipped front rest) (depth offset : Nat) :
    ∃ found, Passes depth depth offset front rest found ∧ counted found = [] := by
  induction skipped generalizing offset with
  | nil => exact ⟨[], passes_nil, rfl⟩
  | @cons piece row rest kind isText ends _ induction =>
      rcases exists_passes_of_piece isText ends depth offset with ⟨found, passes, noneFound⟩
      rcases induction (offset + piece.length) with ⟨others, further, noOthers⟩
      refine ⟨found ++ others, passes.trans further, ?_⟩
      rw [counted_append, noneFound, noOthers, List.append_nil]

end Brace

/-! ## Tokens of a body -/

/-- A token of a body opens or closes a level, but for the text of the body. What was open before
the body is not closed. -/
inductive Steps : (depth : Nat) → Terminal → (last : Nat) → Prop
  | text {depth : Nat} : Steps depth .bodyText depth
  | opens {depth : Nat} : Steps depth .leftBrace (depth + 1)
  | closes {depth : Nat} : Steps (depth + 2) .rightBrace (depth + 1)

/-- The tokens of a body lead from one depth to another. -/
inductive Nests {κ : Type} : (depth : Nat) → List (Terminal × κ) → (last : Nat) → Prop
  | nil {depth : Nat} : Nests depth [] depth
  | cons {depth middle last : Nat} {letter : Terminal} {token : κ} {rest : List (Terminal × κ)}
      (steps : Steps depth letter middle) (further : Nests middle rest last) :
      Nests depth ((letter, token) :: rest) last

theorem Nests.append {κ : Type} {depth middle last : Nat} {left right : List (Terminal × κ)}
    (nests : Nests depth left middle) (further : Nests middle right last) :
    Nests depth (left ++ right) last := by
  induction nests with
  | nil => exact further
  | cons steps _ induction => exact .cons steps (induction further)

def isBraceText (text : List Char) : Bool := text == ['\x7b'] || text == ['\x7d']

/-- Where the tokens start that are braces. -/
def braceStarts (terminals : List (Terminal × Token)) : List Nat :=
  (terminals.filter fun leaf => isBraceText leaf.2.text).map fun leaf => leaf.2.start.offset

theorem braceStarts_cons (leaf : Terminal × Token) (terminals : List (Terminal × Token)) :
    braceStarts (leaf :: terminals) =
      (if isBraceText leaf.2.text then [leaf.2.start.offset] else []) ++ braceStarts terminals := by
  rw [braceStarts, List.filter_cons]
  split <;> rfl

theorem braceStarts_append (left right : List (Terminal × Token)) :
    braceStarts (left ++ right) = braceStarts left ++ braceStarts right := by
  rw [braceStarts, List.filter_append, List.map_append]
  rfl

theorem isBraceText_eq_false {word : List Char}
    (noBrace : ∀ char ∈ word, char ≠ '\x7b' ∧ char ≠ '\x7d') : isBraceText word = false := by
  apply Bool.eq_false_iff.mpr
  intro isBrace
  rw [isBraceText, Bool.or_eq_true, beq_iff_eq, beq_iff_eq] at isBrace
  rcases isBrace with rfl | rfl
  · exact (noBrace _ List.mem_cons_self).1 rfl
  · exact (noBrace _ List.mem_cons_self).2 rfl

theorem mem_braceStarts {terminals : List (Terminal × Token)} {leaf : Terminal × Token}
    (isLeaf : leaf ∈ terminals) (isBrace : isBraceText leaf.2.text = true) :
    leaf.2.start.offset ∈ braceStarts terminals :=
  List.mem_map_of_mem (List.mem_filter.mpr ⟨isLeaf, isBrace⟩)

theorem length_of_isBraceText {word : List Char} (isBrace : isBraceText word = true) :
    word.length = 1 := by
  rw [isBraceText, Bool.or_eq_true, beq_iff_eq, beq_iff_eq] at isBrace
  rcases isBrace with rfl | rfl <;> rfl

variable {states : List Nat} {position : Position} {front text rest word : List Char}
  {terminals later : List (Terminal × Token)} {state depth last : Nat} {letter : Terminal}

theorem Nests.mem {κ : Type} {depth last : Nat} {terminals : List (Terminal × κ)}
    (nests : Nests depth terminals last) :
    ∀ leaf ∈ terminals, leaf.1 ∈ [Terminal.bodyText, .leftBrace, .rightBrace] := by
  induction nests with
  | nil => simp
  | cons steps _ induction =>
      refine List.forall_mem_cons.mpr ⟨?_, induction⟩
      cases steps <;> simp

/-- In a body a token with a brace in it is the brace. -/
theorem isBraceText_of_mem (inBody : letter ∈ [Terminal.bodyText, .leftBrace, .rightBrace])
    (isText : word ∈ letter.texts) {char : Char} (isMember : char ∈ word)
    (isBrace : Brace.isBrace char = true) : isBraceText word = true := by
  simp only [List.mem_cons, List.not_mem_nil, or_false] at inBody
  rcases inBody with rfl | rfl | rfl
  · have isBody : Texts.IsBodyText word := isText
    have noBrace := isBody.noBrace char isMember
    simp [Brace.isBrace, noBrace] at isBrace
  · rw [eq_of_mem_texts_leftBrace isText]
    rfl
  · rw [eq_of_mem_texts_rightBrace isText]
    rfl

/-- A token of a body is passed, and counted if it is a brace. -/
theorem exists_passes_of_read
    (reads : (language.known state).read (word ++ rest) = some ⟨some letter, word⟩)
    (steps : Steps depth letter last) (offset : Nat) :
    ∃ found, Brace.Passes depth last offset word rest found ∧
      Brace.counted found = if isBraceText word then [offset] else [] := by
  cases steps with
  | text =>
      have isRun := bodyRun_of_bodyText (bodyText_of_read reads)
      have isBody : Texts.IsBodyText word := mem_texts_of_read reads
      refine ⟨[], Brace.passes_plain ⟨[], by rw [isRun, List.append_nil]⟩, ?_⟩
      rw [isBraceText_eq_false isBody.noBrace]
      rfl
  | opens =>
      cases eq_of_mem_texts_leftBrace (mem_texts_of_read reads)
      exact ⟨_, Brace.passes_opening, rfl⟩
  | closes =>
      cases eq_of_mem_texts_rightBrace (mem_texts_of_read reads)
      exact ⟨_, Brace.passes_closing, rfl⟩

/-- Of the tokens of a body the scanner counts the braces. -/
theorem Reads.exists_passes (reads : Reads states position front terminals rest)
    (nests : Nests depth terminals last) :
    ∃ found, Brace.Passes depth last position.offset front rest found ∧
      Brace.counted found = braceStarts terminals := by
  induction reads generalizing depth with
  | nil =>
      cases nests
      exact ⟨[], Brace.passes_nil, rfl⟩
  | @cons state _ position row word front rest letter terminals skipped reads _ induction =>
      cases nests with
      | @cons _ middle _ _ _ _ steps nests =>
          rcases Brace.exists_passes_of_skipped skipped depth position.offset with
            ⟨inRow, passesRow, noneCounted⟩
          rcases exists_passes_of_read reads steps (position.offset + row.length) with
            ⟨inWord, passesWord, areCounted⟩
          rcases induction nests with ⟨inFront, passesFront, others⟩
          rw [Position.offset_advance, Position.offset_advance] at passesFront
          have passesRest : Brace.Passes depth last (position.offset + row.length) (word ++ front)
              rest (inWord ++ inFront) := passesWord.trans passesFront
          rw [← List.append_assoc] at passesRow
          refine ⟨_, passesRow.trans passesRest, ?_⟩
          rw [Brace.counted_append, Brace.counted_append, noneCounted, areCounted, others,
            List.nil_append, braceStarts_cons, Position.offset_advance]

/-- In front of the token that closes a body the scanner counts the braces of the body, and it stops
there. -/
theorem Covers.scan_closing {closing : Token}
    (covers : Covers states position text (terminals ++ (.rightBrace, closing) :: later))
    (nests : Nests 1 terminals 1) :
    ∃ inside, Brace.scan .code 1 position.offset text =
        some (inside ++ [⟨.code, closing.start.offset⟩]) ∧
      inside.map Brace.offset =
        Brace.offsets position.offset (text.take (closing.start.offset - position.offset)) ∧
      Brace.counted inside = braceStarts terminals := by
  rcases covers with ⟨whole, last, rfl, -, reads⟩
  rcases reads.exists_append with ⟨front, back, rfl, inFront, inBack⟩
  rcases inFront.exists_passes nests with ⟨found, passes, areCounted⟩
  generalize states.drop terminals.length = remaining at inBack
  cases inBack with
  | @cons _ _ _ row word back _ _ _ skipped closes _ =>
      cases eq_of_mem_texts_rightBrace (mem_texts_of_read closes)
      rcases Brace.exists_passes_of_skipped skipped 1 (position.offset + front.length) with
        ⟨others, passesRow, noneCounted⟩
      have isBehind : row ++ (['\x7d'] ++ back) ++ last =
          row ++ ('\x7d' :: (back ++ last)) := by simp
      rw [isBehind] at passes
      have both : Brace.Passes 1 1 position.offset (front ++ row) ('\x7d' :: (back ++ last))
          (found ++ others) := passes.trans passesRow
      have isText : front ++ (row ++ (['\x7d'] ++ back)) ++ last =
          front ++ row ++ '\x7d' :: (back ++ last) := by simp
      have isStart : ((position.advance front).advance row).offset =
          position.offset + (front ++ row).length := by
        rw [← Position.advance_append, Position.offset_advance]
      refine ⟨found ++ others, ?_, ?_, ?_⟩
      · rw [isText, both.scans, Brace.scan_closing, isStart]
        rfl
      · rw [isText, isStart, Nat.add_sub_cancel_left, List.take_left, both.meets]
      · rw [Brace.counted_append, areCounted, noneCounted, List.append_nil]

end ShaderReflection.Wgsl
