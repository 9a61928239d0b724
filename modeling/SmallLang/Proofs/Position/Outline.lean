import SmallLang.Proofs.Position.Ordered
import SmallLang.Proofs.Typing.Places
import SmallLang.Tree.Equality
import SmallLang.Tree.Outline

/-!
# Outlines follow the source

The nodes of an outline are listed in the order of the source, as far as they have positions. The
position of an expression is that of its leftmost identifier, and an expression without identifiers
has none.
-/

set_option autoImplicit false

namespace SmallLang

/-! ### Positions of expressions -/

mutual

/-- The position of an expression is the first of its marks. -/
theorem Expr.position?_eq_head? : (e : Expr) → e.position? = e.marks.head?
  | .identifier _ _ => rfl
  | .member object _ => object.position?_eq_head?
  | .call callee arguments => by
      rw [marks_call, List.head?_append, position?, callee.position?_eq_head?,
        Expr.firstPosition?_eq_head? arguments]
  | .binary _ left right => by
      rw [marks_binary, List.head?_append, position?, left.position?_eq_head?,
        right.position?_eq_head?]
  | .prefixed _ operand => operand.position?_eq_head?
  | .postfixed _ operand => operand.position?_eq_head?
  | .number _ | .string _ | .boolean _ | .null => rfl

theorem Expr.firstPosition?_eq_head? : (expressions : List Expr) →
    Expr.firstPosition? expressions = (Expr.allMarks expressions).head?
  | [] => rfl
  | first :: rest => by
      rw [allMarks_cons, List.head?_append, firstPosition?, first.position?_eq_head?,
        Expr.firstPosition?_eq_head? rest]

end

section Sublist

variable {α : Type} {found : α → List Position} {item : α} {items items' : List α}
  {marks marks' : List Position}

/-- Whatever is in one of two lists has its marks among those of both. -/
theorem Position.sublist_append (first : ∀ item ∈ items, (found item).Sublist marks)
    (second : ∀ item ∈ items', (found item).Sublist marks') :
    ∀ item ∈ items ++ items', (found item).Sublist (marks ++ marks') := by
  intro item present
  obtain present | present := List.mem_append.mp present
  · exact (first item present).trans (List.sublist_append_left _ _)
  · exact (second item present).trans (List.sublist_append_right _ _)

theorem Position.sublist_cons (others : ∀ item ∈ items, (found item).Sublist marks) :
    ∀ other ∈ item :: items, (found other).Sublist (found item ++ marks) :=
  List.forall_mem_cons.mpr ⟨List.sublist_append_left _ _,
    fun other present => (others other present).trans (List.sublist_append_right _ _)⟩

end Sublist

mutual

theorem Expr.marks_sublist : (e : Expr) → ∀ part ∈ e.parts, part.marks.Sublist e.marks
  | .identifier _ _ | .number _ | .string _ | .boolean _ | .null =>
      List.forall_mem_singleton.mpr (List.Sublist.refl _)
  | .member object _ => List.forall_mem_cons.mpr ⟨List.Sublist.refl _, object.marks_sublist⟩
  | .call callee arguments => by
      refine List.forall_mem_cons.mpr ⟨List.Sublist.refl _, ?_⟩
      rw [marks_call]
      exact Position.sublist_append callee.marks_sublist (Expr.marks_sublist_all arguments)
  | .binary _ left right => by
      refine List.forall_mem_cons.mpr ⟨List.Sublist.refl _, ?_⟩
      rw [marks_binary]
      exact Position.sublist_append left.marks_sublist right.marks_sublist
  | .prefixed _ operand => List.forall_mem_cons.mpr ⟨List.Sublist.refl _, operand.marks_sublist⟩
  | .postfixed _ operand => List.forall_mem_cons.mpr ⟨List.Sublist.refl _, operand.marks_sublist⟩

theorem Expr.marks_sublist_all : (expressions : List Expr) →
    ∀ part ∈ Expr.allParts expressions, part.marks.Sublist (Expr.allMarks expressions)
  | [] => List.forall_mem_nil _
  | first :: rest => by
      rw [allMarks_cons]
      exact Position.sublist_append first.marks_sublist (Expr.marks_sublist_all rest)

end

theorem Expr.marks_sublist_toList {Γ : Env Binding} : (value : Option Expr) →
    ∀ place ∈ value.toList.map (Place.mk Γ), place.expression.marks.Sublist (Expr.marks? value)
  | none => List.forall_mem_nil _
  | some _ => List.forall_mem_singleton.mpr (List.Sublist.refl _)

mutual

/-- The marks of an expression in a statement are among those of the statement, in the same
order. -/
theorem Stmt.marks_sublist (Γ : Env Binding) : (s : Stmt) →
    ∀ place ∈ s.places Γ, place.expression.marks.Sublist s.marks
  | .expr _ => List.forall_mem_singleton.mpr (List.Sublist.refl _)
  | .comment _ | .use _ | .parameter _ | .function _ none => List.forall_mem_nil _
  | .returns value => Expr.marks_sublist_toList value
  | .declare decl => fun place present =>
      (Expr.marks_sublist_toList decl.value place present).cons _
  | .function _ (some body) => fun place present =>
      (Stmt.marks_sublist_all _ body place present).cons _
  | .branch _ body alternate => Position.sublist_cons
      (Position.sublist_append (Stmt.marks_sublist_all _ body) (alternate.marks_sublist Γ))
  | .loop _ body => Position.sublist_cons (Stmt.marks_sublist_all _ body)
  | .switch _ arms => Position.sublist_cons (Arm.marks_sublist_all Γ arms)
  | .arm single => single.marks_sublist Γ
  | .merged body => Stmt.marks_sublist_all Γ body

theorem Alternate.marks_sublist (Γ : Env Binding) : (alternate : Alternate) →
    ∀ place ∈ alternate.places Γ, place.expression.marks.Sublist alternate.marks
  | .none => List.forall_mem_nil _
  | .elseBranch _ body alternate => Position.sublist_cons
      (Position.sublist_append (Stmt.marks_sublist_all _ body) (alternate.marks_sublist Γ))
  | .otherwise body => Stmt.marks_sublist_all _ body

theorem Arm.marks_sublist (Γ : Env Binding) : (arm : Arm) →
    ∀ place ∈ arm.places Γ, place.expression.marks.Sublist arm.marks
  | .value _ body => Position.sublist_cons (Stmt.marks_sublist_all _ body)
  | .otherwise body => Stmt.marks_sublist_all _ body

theorem Stmt.marks_sublist_all (Γ : Env Binding) : (body : List Stmt) →
    ∀ place ∈ Stmt.allPlaces Γ body, place.expression.marks.Sublist (Stmt.allMarks body)
  | [] => List.forall_mem_nil _
  | first :: rest =>
      Position.sublist_append (first.marks_sublist Γ) (Stmt.marks_sublist_all _ rest)

theorem Arm.marks_sublist_all (Γ : Env Binding) : (arms : List Arm) →
    ∀ place ∈ Arm.allPlaces Γ arms, place.expression.marks.Sublist (Arm.allMarks arms)
  | [] => List.forall_mem_nil _
  | first :: rest =>
      Position.sublist_append (first.marks_sublist Γ) (Arm.marks_sublist_all Γ rest)

end

/-! ### The order of an outline -/

/-- The positions in an outline, in its order. -/
def OutlineNode.positions (nodes : List OutlineNode) : List Position :=
  nodes.filterMap (·.position)

/-- Positions that follow some marks: they are among them, and if the marks stand one behind the
other, then no position stands in front of an earlier one. -/
structure Position.Follow (positions marks : List Position) : Prop where
  among : positions ⊆ marks
  ordered : marks.Pairwise Position.Precedes →
    positions.Pairwise fun earlier later => earlier.offset ≤ later.offset

namespace Position.Follow

variable {positions positions' marks marks' : List Position}

theorem nil : Position.Follow [] marks := ⟨List.nil_subset _, fun _ => .nil⟩

theorem append (first : Position.Follow positions marks)
    (second : Position.Follow positions' marks') :
    Position.Follow (positions ++ positions') (marks ++ marks') := by
  refine ⟨List.append_subset.mpr ⟨?_, ?_⟩, fun pairwise => ?_⟩
  · exact List.subset_append_of_subset_left _ first.among
  · exact List.subset_append_of_subset_right _ second.among
  · obtain ⟨pairwise, pairwise', across⟩ := List.pairwise_append.mp pairwise
    refine List.pairwise_append.mpr ⟨first.ordered pairwise, second.ordered pairwise', ?_⟩
    intro earlier present later present'
    exact Nat.le_of_lt (across _ (first.among present) _ (second.among present')).2

theorem skip {mark : Position} (follow : Position.Follow positions marks) :
    Position.Follow positions (mark :: marks) :=
  ⟨List.subset_cons_of_subset _ follow.among,
    fun pairwise => follow.ordered (List.pairwise_cons.mp pairwise).2⟩

/-- The first mark may come once more, in front. -/
theorem cons {position : Position} (first : marks.head? = some position)
    (follow : Position.Follow positions marks) : Position.Follow (position :: positions) marks := by
  obtain ⟨rest, rfl⟩ := List.head?_eq_some_iff.mp first
  refine ⟨List.cons_subset.mpr ⟨List.mem_cons_self, follow.among⟩, fun pairwise => ?_⟩
  refine List.pairwise_cons.mpr ⟨fun later present => ?_, follow.ordered pairwise⟩
  obtain rfl | present := List.mem_cons.mp (follow.among present)
  · exact Nat.le_refl _
  · exact Nat.le_of_lt ((List.pairwise_cons.mp pairwise).1 later present).2

/-- In front of an outline stands a node with the first mark, or without a position. -/
theorem node {node : OutlineNode} {nodes : List OutlineNode}
    (first : ∀ position ∈ node.position, marks.head? = some position)
    (follow : Position.Follow (OutlineNode.positions nodes) marks) :
    Position.Follow (OutlineNode.positions (node :: nodes)) marks := by
  rw [OutlineNode.positions, List.filterMap_cons]
  cases found : node.position with
  | none => exact follow
  | some position => exact follow.cons (first position found)

end Position.Follow

theorem OutlineNode.positions_append (first second : List OutlineNode) :
    positions (first ++ second) = positions first ++ positions second :=
  List.filterMap_append

/-- The node of an expression stands where its first mark does. -/
theorem Expr.follow_node (e : Expr) (depth : Nat) {nodes : List OutlineNode}
    (follow : Position.Follow (OutlineNode.positions nodes) e.marks) :
    Position.Follow (OutlineNode.positions (⟨depth, e.nodeName, e.position?⟩ :: nodes)) e.marks :=
  .node (fun _ found => e.position?_eq_head? ▸ found) follow

mutual

theorem Expr.follow_outline (depth : Nat) : (e : Expr) →
    Position.Follow (OutlineNode.positions (e.outline depth)) e.marks
  | .identifier _ _ | .number _ | .string _ | .boolean _ | .null => Expr.follow_node _ depth .nil
  | .member object _ => Expr.follow_node _ depth (object.follow_outline (depth + 1))
  | .call callee arguments => by
      refine Expr.follow_node _ depth ?_
      rw [OutlineNode.positions_append, marks_call]
      exact (callee.follow_outline (depth + 1)).append (Expr.follow_outlines (depth + 1) arguments)
  | .binary _ left right => by
      refine Expr.follow_node _ depth ?_
      rw [OutlineNode.positions_append, marks_binary]
      exact (left.follow_outline (depth + 1)).append (right.follow_outline (depth + 1))
  | .prefixed _ operand => Expr.follow_node _ depth (operand.follow_outline (depth + 1))
  | .postfixed _ operand => Expr.follow_node _ depth (operand.follow_outline (depth + 1))

theorem Expr.follow_outlines (depth : Nat) : (expressions : List Expr) →
    Position.Follow (OutlineNode.positions (Expr.outlines depth expressions))
      (Expr.allMarks expressions)
  | [] => .nil
  | first :: rest => by
      rw [outlines, OutlineNode.positions_append, allMarks_cons]
      exact (first.follow_outline depth).append (Expr.follow_outlines depth rest)

end

theorem Expr.follow_outlineOption (depth : Nat) : (value : Option Expr) →
    Position.Follow (OutlineNode.positions (Expr.outlineOption depth value)) (Expr.marks? value)
  | none => .nil
  | some e => e.follow_outline depth

/-- Where an expression comes first, its position is that of the first mark. -/
theorem Expr.head?_marks_append {e : Expr} {position : Position} (marks : List Position)
    (found : e.position? = some position) : (e.marks ++ marks).head? = some position := by
  rw [List.head?_append, ← position?_eq_head?, found, Option.some_or]

mutual

theorem Stmt.follow_outline (depth : Nat) : (s : Stmt) →
    Position.Follow (OutlineNode.positions (s.outline depth)) s.marks
  | .expr e => e.follow_outline depth
  | .comment _ => .node nofun .nil
  | .use _ | .parameter _ | .function _ none => .node (fun _ found => found) .nil
  | .returns value => by
      refine .node (fun position found => ?_) (Expr.follow_outlineOption (depth + 1) value)
      cases value with
      | none => cases found
      | some e => exact e.position?_eq_head? ▸ found
  | .declare decl =>
      .node (fun _ found => found) (.skip (Expr.follow_outlineOption (depth + 1) decl.value))
  | .function _ (some body) =>
      .node (fun _ found => found) (.skip (Stmt.follow_outlines (depth + 1) body))
  | .branch condition body alternate => by
      rw [Stmt.outline]
      refine .node (fun position found => condition.head?_marks_append _ found) ?_
      rw [OutlineNode.positions_append, OutlineNode.positions_append, List.append_assoc]
      exact (condition.follow_outline (depth + 1)).append
        ((Stmt.follow_outlines (depth + 1) body).append (alternate.follow_outline (depth + 1)))
  | .loop condition body => by
      rw [Stmt.outline]
      refine .node (fun position found => condition.head?_marks_append _ found) ?_
      rw [OutlineNode.positions_append]
      exact (condition.follow_outline (depth + 1)).append (Stmt.follow_outlines (depth + 1) body)
  | .switch subject arms => by
      rw [Stmt.outline]
      refine .node (fun position found => subject.head?_marks_append _ found) ?_
      rw [OutlineNode.positions_append]
      exact (subject.follow_outline (depth + 1)).append (Arm.follow_outlines (depth + 1) arms)
  | .arm single => .node nofun (single.follow_outline (depth + 1))
  | .merged body => .node nofun (Stmt.follow_outlines (depth + 1) body)

theorem Alternate.follow_outline (depth : Nat) : (alternate : Alternate) →
    Position.Follow (OutlineNode.positions (alternate.outline depth)) alternate.marks
  | .none => .nil
  | .elseBranch condition body alternate => by
      rw [Alternate.outline]
      refine .node (fun position found => condition.head?_marks_append _ found) ?_
      rw [OutlineNode.positions_append, OutlineNode.positions_append, List.append_assoc]
      exact (condition.follow_outline (depth + 1)).append
        ((Stmt.follow_outlines (depth + 1) body).append (alternate.follow_outline (depth + 1)))
  | .otherwise body => .node nofun (Stmt.follow_outlines (depth + 1) body)

theorem Arm.follow_outline (depth : Nat) : (arm : Arm) →
    Position.Follow (OutlineNode.positions (arm.outline depth)) arm.marks
  | .value pattern body => by
      rw [Arm.outline, OutlineNode.positions_append]
      exact (pattern.follow_outline depth).append (Stmt.follow_outlines depth body)
  | .otherwise body => Stmt.follow_outlines depth body

theorem Stmt.follow_outlines (depth : Nat) : (body : List Stmt) →
    Position.Follow (OutlineNode.positions (Stmt.outlines depth body)) (Stmt.allMarks body)
  | [] => .nil
  | first :: rest => by
      rw [Stmt.outlines, OutlineNode.positions_append]
      exact (first.follow_outline depth).append (Stmt.follow_outlines depth rest)

theorem Arm.follow_outlines (depth : Nat) : (arms : List Arm) →
    Position.Follow (OutlineNode.positions (Arm.outlines depth arms)) (Arm.allMarks arms)
  | [] => .nil
  | first :: rest => by
      rw [Arm.outlines, OutlineNode.positions_append]
      exact (first.follow_outline depth).append (Arm.follow_outlines depth rest)

end

namespace BehindNumber

/-- A call that stands behind a number, and a branch whose condition has no position. -/
def source : String := "let z := (1 + f(x, \"s\")(y)).w\nif true \x7b z++ \x7d"

/-- A name on the only line with parentheses. -/
def name (text : String) (offset : Nat) : Expr := .identifier text ⟨"main", offset⟩

/-- The sum in the parentheses. -/
def sum : Expr :=
  .binary .add (.number "1") (.call (.call (name "f" 14) [name "x" 16, .string "s"]) [name "y" 24])

def program : Program :=
  [.declare ⟨"z", true, none, some (.member sum "w"), ⟨"main", 0⟩, none⟩,
    .branch (.boolean true) [.expr (.postfixed .increment (name "z" 40))] .none]

end BehindNumber

end SmallLang
