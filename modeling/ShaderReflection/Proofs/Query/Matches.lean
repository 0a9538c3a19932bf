import ShaderReflection.Proofs.Query.Meeting
import ShaderReflection.Proofs.Reflection.Reflect
import ShaderReflection.Proofs.Tree.Sites

/-!
# The matches of a query

A query gives a match for each place in a tree and each pattern that the node at the place meets, in
the order of a walk and then of the patterns.
-/

namespace ShaderReflection.Query

open ShaderReflection.Tree

/-- A match and where it is: the way to a node, the node, and the pattern that it meets. -/
structure Occurrence where
  way : List Nat
  node : Node
  pattern : Pattern
  found : Match

namespace Occurrence

/-- An occurrence is at its place in the tree, the pattern has its number among the patterns and is
met, and the match has the captures of the pattern. -/
structure IsIn (patterns : List Pattern) (tree : SyntaxTree) (occurrence : Occurrence) : Prop where
  isAt : tree.root.at? occurrence.way = some occurrence.node
  isListed : patterns[occurrence.found.pattern]? = some occurrence.pattern
  meets : occurrence.pattern.Meets tree.source occurrence.node
  binds : Pattern.Binds tree.source occurrence.node occurrence.pattern.subpatterns
    occurrence.found.captures

/-- The order of a walk, and at one node the order of the patterns. -/
def Before (left right : Occurrence) : Prop :=
  Node.Earlier left.way right.way ∨
    left.way = right.way ∧ left.found.pattern < right.found.pattern

end Occurrence

/-! ## At one node -/

section Node

variable {source : List Char} {patterns : List Pattern} {way : List Nat} {node : Node}

/-- The occurrences at one place. -/
def occurrencesAt (source : List Char) (patterns : List Pattern) (site : List Nat × Node) :
    List Occurrence :=
  (patterns.mapIdx fun index pattern => (pattern.matchNode source site.2).map fun captures =>
    ⟨site.1, site.2, pattern, ⟨index, captures⟩⟩).filterMap id

theorem map_found_occurrencesAt :
    (occurrencesAt source patterns (way, node)).map Occurrence.found =
      (patterns.mapIdx fun index pattern =>
        (pattern.matchNode source node).map (Match.mk index)).filterMap id := by
  rw [occurrencesAt, List.map_filterMap, List.mapIdx_eq_zipIdx_map, List.mapIdx_eq_zipIdx_map,
    List.filterMap_map, List.filterMap_map]
  apply List.filterMap_congr
  intro entry _
  simp only [Function.comp_apply, id_eq, Option.map_map]
  rfl

theorem mem_occurrencesAt {occurrence : Occurrence} :
    occurrence ∈ occurrencesAt source patterns (way, node) ↔
      ∃ index pattern captures, patterns[index]? = some pattern ∧
        pattern.matchNode source node = some captures ∧
        occurrence = ⟨way, node, pattern, ⟨index, captures⟩⟩ := by
  rw [occurrencesAt, List.mem_filterMap]
  constructor
  · rintro ⟨found, isFound, isOccurrence⟩
    rcases List.mem_mapIdx.mp isFound with ⟨index, inRange, rfl⟩
    rcases Option.map_eq_some_iff.mp isOccurrence with ⟨captures, isMatch, rfl⟩
    exact ⟨index, patterns[index], captures, List.getElem?_eq_getElem inRange, isMatch, rfl⟩
  · rintro ⟨index, pattern, captures, isListed, isMatch, rfl⟩
    rcases List.getElem?_eq_some_iff.mp isListed with ⟨inRange, rfl⟩
    refine ⟨_, List.mem_mapIdx.mpr ⟨index, inRange, rfl⟩, ?_⟩
    rw [isMatch]
    rfl

theorem pairwise_occurrencesAt :
    (occurrencesAt source patterns (way, node)).Pairwise Occurrence.Before := by
  rw [occurrencesAt, List.pairwise_filterMap, List.pairwise_iff_getElem]
  intro left right _ _ inOrder first isFirst second isSecond
  rw [List.getElem_mapIdx] at isFirst isSecond
  rcases Option.map_eq_some_iff.mp isFirst with ⟨captures, -, rfl⟩
  rcases Option.map_eq_some_iff.mp isSecond with ⟨others, -, rfl⟩
  exact .inr ⟨rfl, inOrder⟩

end Node

/-! ## In a tree -/

section Tree

variable {patterns : List Pattern} {tree : SyntaxTree}

def occurrencesIn (patterns : List Pattern) (tree : SyntaxTree) : List Occurrence :=
  tree.root.sites.flatMap (occurrencesAt tree.source patterns)

theorem matchesIn_eq : matchesIn patterns tree =
    (occurrencesIn patterns tree).map Occurrence.found := by
  rw [matchesIn, occurrencesIn, ← Node.map_snd_sites, List.flatMap_map, List.map_flatMap]
  congr 1
  funext site
  exact map_found_occurrencesAt.symm

theorem mem_occurrencesIn {occurrence : Occurrence} :
    occurrence ∈ occurrencesIn patterns tree ↔
      ∃ way node index pattern captures, tree.root.at? way = some node ∧
        patterns[index]? = some pattern ∧
        pattern.matchNode tree.source node = some captures ∧
        occurrence = ⟨way, node, pattern, ⟨index, captures⟩⟩ := by
  rw [occurrencesIn, List.mem_flatMap]
  constructor
  · rintro ⟨⟨way, node⟩, isSite, isOccurrence⟩
    rcases mem_occurrencesAt.mp isOccurrence with ⟨index, pattern, captures, found⟩
    exact ⟨way, node, index, pattern, captures, (Node.mem_sites _ _ _).mp isSite, found⟩
  · rintro ⟨way, node, index, pattern, captures, isAt, found⟩
    exact ⟨(way, node), (Node.mem_sites _ _ _).mpr isAt,
      mem_occurrencesAt.mpr ⟨index, pattern, captures, found⟩⟩

theorem isIn_of_mem {occurrence : Occurrence}
    (isOccurrence : occurrence ∈ occurrencesIn patterns tree) : occurrence.IsIn patterns tree := by
  rcases mem_occurrencesIn.mp isOccurrence with
    ⟨way, node, index, pattern, captures, isAt, isListed, isMatch, rfl⟩
  have meets := (Pattern.isSome_matchNode tree.source pattern node).mp
    (Option.isSome_of_mem isMatch)
  exact ⟨isAt, isListed, meets, Pattern.binds_of_matchNode pattern node isMatch⟩

theorem exists_occurrence {way : List Nat} {node : Node} {index : Nat} {pattern : Pattern}
    (isAt : tree.root.at? way = some node) (isListed : patterns[index]? = some pattern)
    (meets : pattern.Meets tree.source node) :
    ∃ occurrence ∈ occurrencesIn patterns tree,
      occurrence.way = way ∧ occurrence.found.pattern = index := by
  have isSome := (Pattern.isSome_matchNode tree.source pattern node).mpr meets
  rcases Option.isSome_iff_exists.mp isSome with ⟨captures, isMatch⟩
  exact ⟨⟨way, node, pattern, ⟨index, captures⟩⟩,
    mem_occurrencesIn.mpr ⟨way, node, index, pattern, captures, isAt, isListed, isMatch, rfl⟩,
    rfl, rfl⟩

theorem pairwise_occurrencesIn : (occurrencesIn patterns tree).Pairwise Occurrence.Before := by
  rw [occurrencesIn, List.pairwise_flatMap]
  refine ⟨fun site _ => pairwise_occurrencesAt, ?_⟩
  refine (Node.pairwise_sites tree.root).imp ?_
  rintro ⟨way, node⟩ ⟨later, other⟩ earlier left isLeft right isRight
  rcases mem_occurrencesAt.mp isLeft with ⟨index, pattern, captures, -, -, rfl⟩
  rcases mem_occurrencesAt.mp isRight with ⟨index, pattern, captures, -, -, rfl⟩
  exact .inl earlier

theorem pairwise_start_occurrencesIn {start : Node → Nat}
    (ascending : tree.root.walk.Pairwise fun left right => start left ≤ start right) :
    (occurrencesIn patterns tree).Pairwise fun left right =>
      start left.node ≤ start right.node := by
  rw [← Node.map_snd_sites, List.pairwise_map] at ascending
  have atNode : ∀ {site : List Nat × Node} {occurrence : Occurrence},
      occurrence ∈ occurrencesAt tree.source patterns site → occurrence.node = site.2 := by
    rintro ⟨way, node⟩ occurrence isOccurrence
    rcases mem_occurrencesAt.mp isOccurrence with ⟨index, pattern, captures, -, -, rfl⟩
    rfl
  rw [occurrencesIn, List.pairwise_flatMap]
  constructor
  · intro site _
    refine List.pairwise_of_forall_mem_list ?_
    intro left isLeft right isRight
    rw [atNode isLeft, atNode isRight]
  · refine ascending.imp ?_
    intro site other inOrder left isLeft right isRight
    rw [atNode isLeft, atNode isRight]
    exact inOrder

end Tree

/-- The matches of a query in a parsed tree are its occurrences, in order: one for each place in the
tree and each pattern that the node there meets, and no others. The nodes start later and later. -/
theorem matchesIn_complete {source : String} {tree : SyntaxTree}
    (accepted : parse source = .ok tree) (patterns : List Pattern) :
    ∃ occurrences : List Occurrence,
      matchesIn patterns tree = occurrences.map Occurrence.found ∧
      (∀ occurrence ∈ occurrences, occurrence.IsIn patterns tree) ∧
      (∀ way node index pattern, tree.root.at? way = some node →
        patterns[index]? = some pattern → pattern.Meets tree.source node →
          ∃ occurrence ∈ occurrences, occurrence.way = way ∧ occurrence.found.pattern = index) ∧
      occurrences.Pairwise Occurrence.Before ∧
      occurrences.Pairwise fun left right =>
        left.node.start tree.source ≤ right.node.start tree.source := by
  have isParse := Reflection.parse_eq_ok accepted
  have ascending := Node.pairwise_start_of_parse isParse
  rw [← (grammatical_of_parse isParse).1] at ascending
  exact ⟨occurrencesIn patterns tree, matchesIn_eq, fun _ => isIn_of_mem,
    fun _ _ _ _ => exists_occurrence, pairwise_occurrencesIn,
    pairwise_start_occurrencesIn ascending⟩

/-- A structure with its name, and two members one behind the other, of which the first is asked
for inside. One name stands for both, and keeps the second. -/
def pairPattern : Pattern :=
  .mk "struct_declaration" none (some "struct") [
    .mk "identifier" (some "name") (some "name") [],
    .mk "struct_member" none none [
      .mk "variable_identifier_declaration" none none [.mk "identifier" none (some "member") []]],
    .mk "struct_member" none (some "member") []]

/-- Whatever has an identifier. -/
def ownerPattern : Pattern := .mk "_" none (some "owner") [.mk "identifier" none (some "name") []]

def pairSource : String := "struct A\x7bx:f32,y:i32\x7d"

/-- What a match has kept, with the texts of the nodes. -/
def keptTexts (source : List Char) (found : Match) : Nat × List (String × String) :=
  (found.pattern, found.captures.entries.map fun (name, node) => (name, node.text source))

/-- Both patterns match the structure, and the second one its members too. -/
theorem matchesIn_complete_pairSource :
    ∃ (tree : SyntaxTree) (occurrences : List Occurrence), parse pairSource = .ok tree ∧
      matchesIn [pairPattern, ownerPattern] tree = occurrences.map Occurrence.found ∧
      occurrences.map (fun occurrence => keptTexts tree.source occurrence.found) =
        [(0, [("name", "A"), ("member", "y:i32"), ("struct", "struct A\x7bx:f32,y:i32\x7d")]),
          (1, [("name", "A"), ("owner", "struct A\x7bx:f32,y:i32\x7d")]),
          (1, [("name", "x"), ("owner", "x:f32")]), (1, [("name", "y"), ("owner", "y:i32")])] ∧
      (∀ occurrence ∈ occurrences, occurrence.IsIn [pairPattern, ownerPattern] tree) ∧
      occurrences.Pairwise Occurrence.Before ∧
      ∃ occurrence ∈ occurrences, occurrence.way = [0, 5, 0] ∧ occurrence.found.pattern = 1 := by
  have checked : (parse pairSource).toOption.any (fun tree =>
      (matchesIn [pairPattern, ownerPattern] tree).map (keptTexts tree.source) ==
        [(0, [("name", "A"), ("member", "y:i32"), ("struct", "struct A\x7bx:f32,y:i32\x7d")]),
          (1, [("name", "A"), ("owner", "struct A\x7bx:f32,y:i32\x7d")]),
          (1, [("name", "x"), ("owner", "x:f32")]), (1, [("name", "y"), ("owner", "y:i32")])] &&
        (tree.root.at? [0, 5, 0]).any fun node =>
          (ownerPattern.matchNode tree.source node).isSome) = true := by
    decide +kernel
  rcases exists_ok_of_any checked with ⟨tree, accepted, isFound⟩
  rw [Bool.and_eq_true, beq_iff_eq, Option.any_eq_true] at isFound
  rcases isFound with ⟨kept, node, isAt, isSome⟩
  have meets := (Pattern.isSome_matchNode tree.source ownerPattern node).mp isSome
  rcases matchesIn_complete accepted [pairPattern, ownerPattern] with
    ⟨occurrences, isMatches, each, complete, inOrder, -⟩
  rw [isMatches, List.map_map] at kept
  exact ⟨tree, occurrences, accepted, isMatches, kept, each, inOrder,
    complete [0, 5, 0] node 1 ownerPattern isAt rfl meets⟩

end ShaderReflection.Query
