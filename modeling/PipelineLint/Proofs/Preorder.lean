import PipelineLint.SyntaxTree

set_option autoImplicit false

/-! # The order of the nodes of a tree

`Node.walk` visits the nodes of a tree with a stack. `Node.preorder` lists them by recursion: a
node, then its children with all that is below them, from left to right. The two agree, since a
stack stands for the trees on it, one after the other (`Node.walk_eq_preorderAll`).

Taken step by step, such a walk is a loop that ends after as many visits as there are nodes
(`Traversal.visits?_pending`). Equal nodes may stand in several places of a tree; what tells them
apart is the address, and `Node.preorder` has each address once, in lexicographic order
(`Node.map_at?_addresses`, `Node.pairwise_addresses`). -/

namespace PipelineLint

namespace Node

mutual

/-- The nodes from this one down, in the order in which they are written. -/
def preorder : Node → List Node
  | .mk kind start stop text children =>
    .mk kind start stop text children :: preorderAll children

/-- The nodes from these down. -/
def preorderAll : List Node → List Node
  | [] => []
  | node :: rest => preorder node ++ preorderAll rest

end

theorem preorder_eq (node : Node) : node.preorder = node :: preorderAll node.children := by
  cases node
  rw [preorder]

theorem preorderAll_append (nodes others : List Node) :
    preorderAll (nodes ++ others) = preorderAll nodes ++ preorderAll others := by
  induction nodes with
  | nil => rfl
  | cons node rest ih => rw [List.cons_append, preorderAll, preorderAll, ih, List.append_assoc]

theorem walk_eq_preorderAll (stack : List Node) : walk stack = preorderAll stack := by
  fun_induction walk stack with
  | case1 => rfl
  | case2 node rest ih =>
    -- the children go on the stack before what is left of it
    rw [ih, preorderAll_append, preorderAll, preorder_eq, List.cons_append]

end Node

/-- The nodes of one sort, in the order in which they are written. -/
def SyntaxTree.inOrder (tree : SyntaxTree) (kind : NodeKind) : List Node :=
  tree.root.preorder.filter (·.kind = kind)

theorem SyntaxTree.nodesOfKind_eq_inOrder (tree : SyntaxTree) (kind : NodeKind) :
    tree.nodesOfKind kind = tree.inOrder kind := by
  rw [nodesOfKind, Node.walk_eq_preorderAll, Node.preorderAll, Node.preorderAll, List.append_nil,
    inOrder]

/-! ## Visiting one node at a time -/

/-- A traversal under way: the nodes found so far and the stack of the nodes still to be visited,
    its top at the end. A traversal with an empty stack is over. -/
structure Traversal where
  found : List Node
  stack : List Node

namespace Traversal

/-- The start of a traversal. -/
def start (tree : SyntaxTree) : Traversal where
  found := []
  stack := [tree.root]

/-- Visit the node on top of the stack: note it if it is of the sort, and push its children, the
    first of them last. -/
def visit? (kind : NodeKind) (traversal : Traversal) : Option Traversal :=
  traversal.stack.getLast?.map fun node =>
    { found := if node.kind = kind then traversal.found ++ [node] else traversal.found
      stack := traversal.stack.dropLast ++ node.children.reverse }

/-- So many visits. -/
def visits? (kind : NodeKind) : Nat → Traversal → Option Traversal
  | 0, traversal => some traversal
  | n + 1, traversal => (traversal.visit? kind).bind (visits? kind n)

/-- The nodes that a traversal is still to visit, in the order in which they are written. -/
def pending (traversal : Traversal) : List Node :=
  Node.preorderAll traversal.stack.reverse

theorem pending_eq_nil_iff {traversal : Traversal} :
    traversal.pending = [] ↔ traversal.stack = [] := by
  have hreverse : traversal.stack = [] ↔ traversal.stack.reverse = [] := by simp
  rw [pending, hreverse]
  cases traversal.stack.reverse with
  | nil => simp [Node.preorderAll]
  | cons top below => simp [Node.preorderAll, Node.preorder_eq]

/-- A visit takes the next of the nodes that are still to be visited. -/
theorem visit?_of_pending_eq_cons {traversal : Traversal} {node : Node} {rest : List Node}
    (h : traversal.pending = node :: rest) (kind : NodeKind) :
    ∃ next, traversal.visit? kind = some next
      ∧ next.found = traversal.found ++ [node].filter (·.kind = kind)
      ∧ next.pending = rest := by
  rw [pending] at h
  cases hstack : traversal.stack.reverse with
  | nil =>
    rw [hstack] at h
    exact absurd h (List.cons_ne_nil node rest).symm
  | cons top below =>
    have htop : traversal.stack = below.reverse ++ [top] := by
      rw [← List.reverse_reverse traversal.stack, hstack, List.reverse_cons]
    rw [hstack, Node.preorderAll, Node.preorder_eq, List.cons_append] at h
    obtain ⟨rfl, hrest⟩ := List.cons.inj h
    refine ⟨_, by rw [visit?, htop, List.getLast?_concat, Option.map_some], ?_, ?_⟩
    · by_cases hkind : top.kind = kind
      · simp [hkind]
      · simp [hkind]
    · -- the reversed children are on the stack in their order
      rw [pending, List.dropLast_concat, List.reverse_append, List.reverse_reverse,
        List.reverse_reverse, Node.preorderAll_append, hrest]

/-- A traversal is over after as many visits as there are nodes to visit, and has then found those
    of the sort. -/
theorem visits?_pending (kind : NodeKind) (traversal : Traversal) :
    traversal.visits? kind traversal.pending.length
      = some
        { found := traversal.found ++ traversal.pending.filter (·.kind = kind), stack := [] } := by
  induction hpending : traversal.pending generalizing traversal with
  | nil =>
    obtain ⟨found, stack⟩ := traversal
    obtain rfl : stack = [] := pending_eq_nil_iff.1 hpending
    simp [visits?]
  | cons node rest ih =>
    obtain ⟨next, hvisit, hfound, hnext⟩ := visit?_of_pending_eq_cons hpending kind
    rw [List.length_cons, visits?, hvisit, Option.bind_some, ih next hnext, hfound,
      List.append_assoc, ← List.filter_append, List.singleton_append]

end Traversal

/-! ## Addresses -/

namespace Node

/-- The node at an address: the numbers of the children to go down to, one below the other. -/
def at? (node : Node) : List Nat → Option Node
  | [] => some node
  | i :: address => node.children[i]?.bind (·.at? address)

mutual

/-- The addresses of the nodes from this one down, in the order in which these are written. -/
def addresses : Node → List (List Nat)
  | .mk _ _ _ _ children => [] :: addressesFrom 0 children

/-- The addresses of the nodes from these down, where the first of these has the number `i`. -/
def addressesFrom (i : Nat) : List Node → List (List Nat)
  | [] => []
  | node :: rest => (addresses node).map (i :: ·) ++ addressesFrom (i + 1) rest

end

theorem addresses_eq (node : Node) : node.addresses = [] :: addressesFrom 0 node.children := by
  cases node
  rw [addresses]

theorem mem_addressesFrom_iff {i : Nat} {nodes : List Node} {address : List Nat} :
    address ∈ addressesFrom i nodes
      ↔ ∃ j below child, address = (i + j) :: below ∧ nodes[j]? = some child
        ∧ below ∈ child.addresses := by
  induction nodes generalizing i with
  | nil => simp [addressesFrom]
  | cons node rest ih =>
    rw [addressesFrom, List.mem_append, List.mem_map, ih]
    constructor
    · rintro (⟨below, hbelow, rfl⟩ | ⟨j, below, child, rfl, hchild, hbelow⟩)
      · exact ⟨0, below, node, rfl, rfl, hbelow⟩
      · exact ⟨j + 1, below, child, by rw [Nat.add_right_comm, Nat.add_assoc], hchild, hbelow⟩
    · rintro ⟨_ | j, below, child, rfl, hchild, hbelow⟩
      · obtain rfl := Option.some.inj hchild
        exact Or.inl ⟨below, hbelow, rfl⟩
      · exact Or.inr ⟨j, below, child, by rw [Nat.add_right_comm, Nat.add_assoc], hchild, hbelow⟩

/-- The addresses of a node are those at which there is a node. -/
theorem mem_addresses_iff {node : Node} {address : List Nat} :
    address ∈ node.addresses ↔ (node.at? address).isSome = true := by
  induction address generalizing node with
  | nil => simp [addresses_eq, at?]
  | cons i below ih =>
    rw [addresses_eq, List.mem_cons, mem_addressesFrom_iff, at?]
    constructor
    · rintro (hnil | ⟨j, _, child, heq, hchild, hbelow⟩)
      · exact absurd hnil (List.cons_ne_nil i below)
      · obtain ⟨rfl, rfl⟩ := List.cons.inj heq
        rw [Nat.zero_add, hchild, Option.bind_some]
        exact ih.1 hbelow
    · intro hsome
      obtain ⟨other, hother⟩ := Option.isSome_iff_exists.1 hsome
      obtain ⟨child, hchild, hat⟩ := Option.bind_eq_some_iff.1 hother
      refine Or.inr ⟨i, below, child, by rw [Nat.zero_add], hchild, ih.2 ?_⟩
      rw [hat, Option.isSome_some]

mutual

/-- A node comes before what is below it, and what is below a child comes before what is below the
    next one: the addresses are in lexicographic order. -/
theorem pairwise_addresses : ∀ node : Node, node.addresses.Pairwise (· < ·)
  | .mk kind start stop text children => by
    rw [addresses, List.pairwise_cons]
    refine ⟨?_, pairwise_addressesFrom 0 children⟩
    intro address hmem
    obtain ⟨j, below, child, rfl, -, -⟩ := mem_addressesFrom_iff.1 hmem
    exact List.nil_lt_cons _ _

theorem pairwise_addressesFrom (i : Nat) :
    ∀ nodes : List Node, (addressesFrom i nodes).Pairwise (· < ·)
  | [] => by
    rw [addressesFrom]
    exact .nil
  | node :: rest => by
    rw [addressesFrom, List.pairwise_append, List.pairwise_map]
    refine ⟨?_, pairwise_addressesFrom (i + 1) rest, ?_⟩
    · exact (pairwise_addresses node).imp fun hlt => List.cons_lt_cons_self.2 hlt
    · intro address hmem other hother
      obtain ⟨below, -, rfl⟩ := List.mem_map.1 hmem
      obtain ⟨j, below', child, rfl, -, -⟩ := mem_addressesFrom_iff.1 hother
      exact List.cons_lt_cons_iff.2 (Or.inl (by omega))

end

mutual

/-- At its addresses a node has the nodes from it down, in their order. -/
theorem map_at?_addresses : ∀ node : Node, node.addresses.map node.at? = node.preorder.map some
  | .mk kind start stop text children => by
    rw [addresses, preorder, List.map_cons, List.map_cons, at?,
      map_addressesFrom 0 children _ fun j below => by rw [Nat.zero_add, at?]]

theorem map_addressesFrom (i : Nat) : ∀ (nodes : List Node) (nodeAt? : List Nat → Option Node),
    (∀ j below, nodeAt? ((i + j) :: below) = nodes[j]?.bind (·.at? below)) →
    (addressesFrom i nodes).map nodeAt? = (preorderAll nodes).map some
  | [], _, _ => rfl
  | node :: rest, nodeAt?, h => by
    have hnode : nodeAt? ∘ (i :: ·) = node.at? := funext fun below => h 0 below
    have hrest : ∀ j below, nodeAt? ((i + 1 + j) :: below) = rest[j]?.bind (·.at? below) := by
      intro j below
      rw [Nat.add_assoc, Nat.add_comm 1 j, h, List.getElem?_cons_succ]
    rw [addressesFrom, preorderAll, List.map_append, List.map_append, List.map_map, hnode,
      map_at?_addresses node, map_addressesFrom (i + 1) rest nodeAt? hrest]

end

/-- The addresses at which there is a node with a property. -/
def addressesOf (node : Node) (p : Node → Bool) : List (List Nat) :=
  node.addresses.filter fun address => (node.at? address).any p

theorem mem_addressesOf_iff {node : Node} {p : Node → Bool} {address : List Nat} :
    address ∈ node.addressesOf p ↔ ∃ found, node.at? address = some found ∧ p found = true := by
  rw [addressesOf, List.mem_filter, mem_addresses_iff]
  cases node.at? address <;> simp

theorem map_at?_addressesOf (node : Node) (p : Node → Bool) :
    (node.addressesOf p).map node.at? = (node.preorder.filter p).map some := by
  have hfilter := List.filter_map (p := Option.any p) (f := node.at?) (l := node.addresses)
  rw [map_at?_addresses, List.filter_map] at hfilter
  exact hfilter.symm

end Node

/-! ## Counting -/

namespace Node

mutual

theorem length_preorder : ∀ node : Node, node.preorder.length = node.size
  | .mk kind start stop text children => by
    rw [preorder, size, List.length_cons, length_preorderAll children, Nat.add_comm]

theorem length_preorderAll : ∀ nodes : List Node, (preorderAll nodes).length = sizeAll nodes
  | [] => rfl
  | node :: rest => by
    rw [preorderAll, sizeAll, List.length_append, length_preorder node, length_preorderAll rest]

end

/-- Every node is of exactly one of the sorts. -/
theorem length_filter_kind (nodes : List Node) :
    (nodes.filter (·.kind = .stringScalar)).length + (nodes.filter (·.kind = .blockScalar)).length
      + (nodes.filter (·.kind = .mapping)).length + (nodes.filter (·.kind = .sequence)).length
      + (nodes.filter (·.kind = .other)).length = nodes.length := by
  induction nodes with
  | nil => rfl
  | cons node rest ih =>
    cases hkind : node.kind <;> simp [hkind] <;> omega

end Node

/-- **The walk of a tree is in pre-order.** Visiting the tree node by node with a stack is over
    after as many visits as the tree has nodes, and has then found the nodes of the sort in the
    order of the recursion: a node before its children, and these from left to right. So the nodes
    that are found are those at the addresses with a node of the sort, below other such nodes or
    not; each of these addresses counts once, and they are in lexicographic order. The nodes of the
    five sorts together are as many as there are nodes. -/
theorem SyntaxTree.nodesOfKind_eq_preorder (tree : SyntaxTree) :
    (∀ kind : NodeKind,
      (Traversal.start tree).visits? kind tree.root.size
        = some { found := tree.nodesOfKind kind, stack := [] }
      ∧ tree.nodesOfKind kind = tree.root.preorder.filter (·.kind = kind)
      ∧ ∃ addresses : List (List Nat),
        (tree.nodesOfKind kind).map some = addresses.map tree.root.at?
        ∧ addresses.Pairwise (· < ·)
        ∧ ∀ address, address ∈ addresses
          ↔ ∃ node, tree.root.at? address = some node ∧ node.kind = kind)
    ∧ (tree.nodesOfKind .stringScalar).length + (tree.nodesOfKind .blockScalar).length
      + (tree.nodesOfKind .mapping).length + (tree.nodesOfKind .sequence).length
      + (tree.nodesOfKind .other).length = tree.root.size := by
  have hpending : (Traversal.start tree).pending = tree.root.preorder := by
    rw [Traversal.pending, Traversal.start, List.reverse_singleton, Node.preorderAll,
      Node.preorderAll, List.append_nil]
  have hlist := tree.nodesOfKind_eq_inOrder
  refine ⟨fun kind => ⟨?_, hlist kind, ?_⟩, ?_⟩
  · have hvisits := Traversal.visits?_pending kind (.start tree)
    rw [hpending, Node.length_preorder, Traversal.start, List.nil_append] at hvisits
    rw [hlist, SyntaxTree.inOrder, ← hvisits, Traversal.start]
  · refine ⟨tree.root.addressesOf (·.kind = kind), ?_, tree.root.pairwise_addresses.filter _, ?_⟩
    · rw [Node.map_at?_addressesOf, hlist, SyntaxTree.inOrder]
    · intro address
      simp only [Node.mem_addressesOf_iff, decide_eq_true_eq]
  · simp only [hlist, SyntaxTree.inOrder, Node.length_filter_kind, Node.length_preorder]

/-- A scalar below a scalar is found, and equal ones are found in every place. -/
example :
    let node (kind : NodeKind) (text : String) (children : List Node) : Node :=
      { kind, start := {}, stop := {}, text, children }
    let leaf := node .stringScalar "b" []
    let tree : SyntaxTree :=
      ⟨node .mapping "" [node .stringScalar "a" [node .sequence "" [leaf]], leaf]⟩
    (tree.nodesOfKind .stringScalar).map (·.text) = ["a", "b", "b"] := by
  cbv

end PipelineLint
