import ShaderReflection.Proofs.Text.Quoted
import ShaderReflection.Proofs.Tree.Soundness
import ShaderReflection.Proofs.Wgsl.Lexing

/-!
# What a dump tells

The skeleton of a tree is what its named nodes are: their types, their nesting and order, and the
text of each one without named children. A dump is a skeleton in writing (`dump_eq_write`), and no
two skeletons are written alike (`write_append_inj`), because no type contains the space or the
parenthesis that ends it, and a quoted text tells where it ends. So two parsed trees have the same
dump just if they have the same skeleton.
-/

namespace ShaderReflection.Tree

open ShaderReflection.Grammar ShaderReflection.Text ShaderReflection.Wgsl

/-! ## Skeletons -/

/-- A named node with the named nodes below it, or with its text if there are none. -/
inductive Skeleton where
  | bare (type : String) (text : List Char)
  | around (type : String) (parts : List Skeleton)

mutual

/-- The skeleton of a named node. A token has none. -/
def Node.skeleton? (source : List Char) : Node → Option Skeleton
  | named label span children =>
      let type := (named label span children).type source
      match skeletons source children with
      | [] => some (.bare type ((named label span children).chars source))
      | parts => some (.around type parts)
  | token .. => none

/-- The skeletons of the named nodes in a row. -/
def Node.skeletons (source : List Char) : List Node → List Skeleton
  | [] => []
  | node :: rest => (node.skeleton? source).toList ++ skeletons source rest

end

namespace Skeleton

def type : Skeleton → String
  | bare type _ => type
  | around type _ => type

mutual

def write : Skeleton → List Char
  | bare type text => '(' :: type.toList ++ ' ' :: Quoted.encode text ++ [')']
  | around type parts => '(' :: type.toList ++ writeAll parts ++ [')']

/-- The skeletons of a row, each behind a space. -/
def writeAll : List Skeleton → List Char
  | [] => []
  | part :: rest => ' ' :: part.write ++ writeAll rest

end

end Skeleton

mutual

/-- A dump is a skeleton in writing. -/
theorem Node.dump_eq_write (source : List Char) : (node : Node) →
    node.dump source = ((node.skeleton? source).map Skeleton.write).getD []
  | named label span children => by
      have below := dumpAll_eq_writeAll source children
      rw [dump, skeleton?, below]
      cases skeletons source children with
      | nil => rfl
      | cons part parts => rfl
  | token label span => rfl

theorem Node.dumpAll_eq_writeAll (source : List Char) : (nodes : List Node) →
    dumpAll source nodes = Skeleton.writeAll (skeletons source nodes)
  | [] => rfl
  | named label span children :: rest => by
      rw [dumpAll, dump_eq_write source (named label span children),
        dumpAll_eq_writeAll source rest, skeletons, skeleton?]
      cases skeletons source children <;> rfl
  | token label span :: rest => by
      rw [dumpAll, dumpAll_eq_writeAll source rest, skeletons, skeleton?]
      rfl

end

/-! ## Types -/

/-- The characters of types. -/
def isTypeChar (char : Char) : Bool := char != ' ' && char != ')'

/-- The types in a skeleton contain neither a space nor a closing parenthesis. -/
inductive Skeleton.Plain : Skeleton → Prop
  | bare {type : String} {text : List Char}
      (plain : ∀ char ∈ type.toList, isTypeChar char = true) : Plain (.bare type text)
  | around {type : String} {parts : List Skeleton}
      (plain : ∀ char ∈ type.toList, isTypeChar char = true)
      (below : ∀ part ∈ parts, Plain part) : Plain (.around type parts)

theorem Kind.isTypeChar_of_mem (kind : Kind) :
    ∀ char ∈ kind.name.toList, isTypeChar char = true := by
  have all : kind.name.toList.all isTypeChar = true := by
    cases kind <;> decide
  exact List.all_eq_true.mp all

theorem Node.mem_skeletons {source : List Char} {part : Skeleton} {nodes : List Node} :
    part ∈ skeletons source nodes ↔ ∃ node ∈ nodes, node.skeleton? source = some part := by
  induction nodes with
  | nil => simp [skeletons]
  | cons node nodes induction =>
      rw [skeletons, List.mem_append, Option.mem_toList, induction, List.exists_mem_cons_iff]

/-- The types of a parsed tree are names of kinds. -/
theorem Node.Grammatical.plain {source : List Char} {node : Node}
    (grammatical : node.Grammatical source) {skeleton : Skeleton}
    (isSkeleton : node.skeleton? source = some skeleton) : skeleton.Plain := by
  induction grammatical generalizing skeleton with
  | token terminal span isText => cases isSkeleton
  | named kind children row isRow symbols below induction =>
      have partsPlain : ∀ part ∈ skeletons source children, part.Plain := by
        intro part isPart
        rcases mem_skeletons.mp isPart with ⟨child, isChild, isSkeleton⟩
        exact induction child isChild isSkeleton
      rw [skeleton?] at isSkeleton
      cases isParts : skeletons source children with
      | nil =>
          rw [isParts] at isSkeleton
          cases isSkeleton
          exact .bare kind.isTypeChar_of_mem
      | cons part parts =>
          rw [isParts] at isSkeleton partsPlain
          cases isSkeleton
          exact .around kind.isTypeChar_of_mem partsPlain

/-! ## No two skeletons are written alike -/

namespace Skeleton

open Lexeme

/-- What is written behind the type. -/
def inner : Skeleton → List Char
  | bare _ text => ' ' :: Quoted.encode text
  | around _ parts => writeAll parts

theorem write_append (skeleton : Skeleton) (rest : List Char) :
    skeleton.write ++ rest =
      '(' :: (skeleton.type.toList ++ (skeleton.inner ++ ')' :: rest)) := by
  cases skeleton <;> simp [write, type, inner]

theorem writeAll_cons (part : Skeleton) (parts : List Skeleton) (rest : List Char) :
    writeAll (part :: parts) ++ rest = ' ' :: (part.write ++ (writeAll parts ++ rest)) := by
  rw [writeAll, List.cons_append, List.cons_append, List.append_assoc]

theorem stops_inner (skeleton : Skeleton) (rest : List Char) :
    Stops isTypeChar (skeleton.inner ++ ')' :: rest) := by
  match skeleton with
  | bare type text => exact stops_cons rfl
  | around type [] => exact stops_cons rfl
  | around type (part :: parts) => exact stops_cons rfl

theorem Plain.type {skeleton : Skeleton} (plain : skeleton.Plain) :
    ∀ char ∈ skeleton.type.toList, isTypeChar char = true := by
  cases plain with
  | bare plain => exact plain
  | around plain below => exact plain

/-- A type ends where a space or a closing parenthesis stands. -/
theorem Plain.type_eq {left right : Skeleton} (leftPlain : left.Plain) (rightPlain : right.Plain)
    {leftRest rightRest : List Char}
    (same : left.write ++ leftRest = right.write ++ rightRest) :
    left.type = right.type ∧
      left.inner ++ ')' :: leftRest = right.inner ++ ')' :: rightRest := by
  rw [write_append, write_append, List.cons.injEq] at same
  have sameType := congrArg (List.takeWhile isTypeChar) same.2
  rw [takeWhile_append leftPlain.type (stops_inner left leftRest),
    takeWhile_append rightPlain.type (stops_inner right rightRest)] at sameType
  have sameRest := same.2
  rw [sameType] at sameRest
  exact ⟨String.toList_injective sameType, List.append_cancel_left sameRest⟩

/-- A quoted text is no row of skeletons. -/
theorem encode_ne_writeAll {text rest : List Char} {parts : List Skeleton} {other : List Char} :
    ' ' :: Quoted.encode text ++ rest ≠ writeAll parts ++ ')' :: other := by
  cases parts with
  | nil => simp [writeAll]
  | cons part parts =>
      rw [writeAll_cons, write_append, Quoted.encode]
      rcases Quoted.quoteFor_eq text with isQuote | isQuote <;> simp [isQuote]

mutual

/-- A text begins with at most one skeleton. -/
theorem write_append_inj : (left right : Skeleton) → left.Plain → right.Plain →
    (leftRest rightRest : List Char) →
    left.write ++ leftRest = right.write ++ rightRest → left = right ∧ leftRest = rightRest
  | bare _ leftText, bare _ rightText, leftPlain, rightPlain, leftRest, rightRest, same => by
      rcases leftPlain.type_eq rightPlain same with ⟨sameType, sameInner⟩
      rcases Quoted.encode_append_inj (List.cons.inj sameInner).2 with ⟨sameText, sameRest⟩
      cases sameType
      cases sameText
      exact ⟨rfl, (List.cons.inj sameRest).2⟩
  | bare _ _, around _ _, leftPlain, rightPlain, leftRest, rightRest, same =>
      absurd (leftPlain.type_eq rightPlain same).2 encode_ne_writeAll
  | around _ _, bare _ _, leftPlain, rightPlain, leftRest, rightRest, same =>
      absurd (leftPlain.type_eq rightPlain same).2.symm encode_ne_writeAll
  | around _ leftParts, around _ rightParts, leftPlain, rightPlain, leftRest, rightRest, same => by
      rcases leftPlain.type_eq rightPlain same with ⟨sameType, sameInner⟩
      cases leftPlain with
      | around _ leftBelow =>
          cases rightPlain with
          | around _ rightBelow =>
              rcases writeAll_append_inj leftParts rightParts leftBelow rightBelow leftRest
                rightRest sameInner with ⟨sameParts, sameRest⟩
              cases sameType
              cases sameParts
              exact ⟨rfl, sameRest⟩

theorem writeAll_append_inj : (lefts rights : List Skeleton) → (∀ part ∈ lefts, part.Plain) →
    (∀ part ∈ rights, part.Plain) → (leftRest rightRest : List Char) →
    writeAll lefts ++ ')' :: leftRest = writeAll rights ++ ')' :: rightRest →
    lefts = rights ∧ leftRest = rightRest
  | [], [], _, _, leftRest, rightRest, same => ⟨rfl, (List.cons.inj same).2⟩
  | [], right :: rights, _, _, leftRest, rightRest, same => by
      rw [writeAll_cons, writeAll] at same
      cases same
  | left :: lefts, [], _, _, leftRest, rightRest, same => by
      rw [writeAll_cons, writeAll] at same
      cases same
  | left :: lefts, right :: rights, leftPlain, rightPlain, leftRest, rightRest, same => by
      rcases List.forall_mem_cons.mp leftPlain with ⟨leftFirst, leftOthers⟩
      rcases List.forall_mem_cons.mp rightPlain with ⟨rightFirst, rightOthers⟩
      rw [writeAll_cons, writeAll_cons, List.cons.injEq] at same
      rcases write_append_inj left right leftFirst rightFirst _ _ same.2 with
        ⟨sameFirst, sameOthers⟩
      rcases writeAll_append_inj lefts rights leftOthers rightOthers leftRest rightRest
        sameOthers with ⟨sameRow, sameRest⟩
      cases sameFirst
      cases sameRow
      exact ⟨rfl, sameRest⟩

end

end Skeleton

/-! ## Parsed trees -/

theorem exists_skeleton_of_parse {source : List Char} {tree : SyntaxTree}
    (accepted : SyntaxTree.parse source = .ok tree) :
    ∃ skeleton, tree.root.skeleton? source = some skeleton ∧ skeleton.Plain ∧
      tree.root.dump source = skeleton.write := by
  rcases grammatical_of_parse accepted with ⟨-, grammatical, isTop⟩
  have isSome : ∃ skeleton, tree.root.skeleton? source = some skeleton := by
    cases isRoot : tree.root with
    | token label span =>
        rw [isRoot] at isTop
        cases isTop
    | named label span children =>
        rw [Node.skeleton?]
        cases Node.skeletons source children <;> exact ⟨_, rfl⟩
  rcases isSome with ⟨skeleton, isSkeleton⟩
  refine ⟨skeleton, isSkeleton, grammatical.plain isSkeleton, ?_⟩
  rw [Node.dump_eq_write, isSkeleton]
  rfl

/-- Two accepted sources have trees with the same dump just if their trees have the same skeleton:
the same named nodes with the same types, nested in the same way and in the same order, and the
same text for each of them without named children. -/
theorem dump_eq_iff {leftSource rightSource : List Char} {left right : SyntaxTree}
    (leftAccepted : SyntaxTree.parse leftSource = .ok left)
    (rightAccepted : SyntaxTree.parse rightSource = .ok right) :
    left.root.dump leftSource = right.root.dump rightSource ↔
      left.root.skeleton? leftSource = right.root.skeleton? rightSource := by
  constructor
  · intro same
    rcases exists_skeleton_of_parse leftAccepted with ⟨leftSkeleton, isLeft, leftPlain, leftDump⟩
    rcases exists_skeleton_of_parse rightAccepted with
      ⟨rightSkeleton, isRight, rightPlain, rightDump⟩
    have sameWriting : leftSkeleton.write ++ [] = rightSkeleton.write ++ [] := by
      rw [← leftDump, ← rightDump, same]
    rw [isLeft, isRight,
      (Skeleton.write_append_inj _ _ leftPlain rightPlain [] [] sameWriting).1]
  · intro same
    rw [Node.dump_eq_write, Node.dump_eq_write, same]

/-- A body with quotes of both kinds, a backslash and a character that is not printable. -/
def quotingSource : String := "fn f ( ) \x7b it's \"q\" \\ \x01 é \x7d"

/-- The same function between semicolons, with less space. -/
def enclosedSource : String := ";fn f() \x7b it's \"q\" \\ \x01 é \x7d;"

theorem dump_eq_iff_quotingSource : ∃ left right,
    SyntaxTree.parse quotingSource.toList = .ok left ∧
      SyntaxTree.parse enclosedSource.toList = .ok right ∧
      left.root.dump quotingSource.toList = right.root.dump enclosedSource.toList ∧
      left.root.skeleton? quotingSource.toList = right.root.skeleton? enclosedSource.toList := by
  have checked : (SyntaxTree.parse quotingSource.toList).toOption.any (fun left =>
      (SyntaxTree.parse enclosedSource.toList).toOption.any fun right =>
        left.root.dump quotingSource.toList == right.root.dump enclosedSource.toList) = true := by
    decide +kernel
  rcases exists_ok_of_any checked with ⟨left, leftAccepted, further⟩
  rcases exists_ok_of_any further with ⟨right, rightAccepted, isSame⟩
  have same := beq_iff_eq.mp isSame
  exact ⟨left, right, leftAccepted, rightAccepted, same,
    (dump_eq_iff leftAccepted rightAccepted).mp same⟩

end ShaderReflection.Tree
