import Mathlib.Data.List.Basic
import Mathlib.Data.String.Basic
import Stencil.Proofs.Template.Parsed
import Stencil.TreeView

/-!
# The lines of a tree view

A tree view is read line by line. Each line belongs to one node, and what is drawn at its start
leads up to the node's parent; this is lost where a label holds a line feed of its own. Text is
quoted and names have no line feeds, but a string literal stands in a label as it is written.

A node is found by its *address*, which says for each level, from the roots on, which of the
siblings to take. In the order of addresses a node comes before the nodes below it, and these come
before its later siblings.

* `Node.IsPreorder`: all nodes with their addresses, in this order; `isPreorder_visitsFrom`.
* `TreeView.strokes`: what is drawn before a node, read off its address.
* `toList_siblingLines`: a tree view is written node by node.
* `showsEachNode_iff`: its lines are those of the nodes, unless a label breaks the line.
* `lineFeed_mem_label_iff`: in a template that was read, only a string literal brings a line feed.
-/

namespace Stencil

namespace Node

/-! ## Addresses -/

/-- The node at an address below another one. -/
def below? (node : Node) : List Nat → Option Node
  | [] => some node
  | i :: rest => node.children[i]?.bind (below? · rest)

/-- The node at an address. -/
def at? (nodes : List Node) : List Nat → Option Node
  | [] => none
  | i :: rest => nodes[i]?.bind (below? · rest)

/-- All nodes with their addresses, each before those below it and these before its later
siblings. -/
structure IsPreorder (nodes : List Node) (visits : List (List Nat × Node)) : Prop where
  mem_iff : ∀ address node, (address, node) ∈ visits ↔ at? nodes address = some node
  increasing : visits.Pairwise (·.1 < ·.1)

theorem below?_cons (node : Node) (i : Nat) (rest : List Nat) :
    node.below? (i :: rest) = at? node.children (i :: rest) :=
  rfl

mutual

/-- A node, the one at place `i` among its siblings, and those below it. -/
def visits (i : Nat) : Node → List (List Nat × Node)
  | .mk type label children =>
    ([i], .mk type label children) ::
      (visitsFrom 0 children).map fun visit => (i :: visit.1, visit.2)

/-- Siblings, the first of them at place `i`, and those below them. -/
def visitsFrom (i : Nat) : List Node → List (List Nat × Node)
  | [] => []
  | node :: rest => visits i node ++ visitsFrom (i + 1) rest

end

mutual

theorem mem_visits_iff {i : Nat} {node found : Node} {address : List Nat} :
    (address, found) ∈ visits i node ↔
      ∃ rest, address = i :: rest ∧ node.below? rest = some found := by
  match node with
  | .mk type label children =>
    rw [visits, List.mem_cons, List.mem_map]
    constructor
    · rintro (h | ⟨⟨inner, _⟩, hmem, h⟩)
      · obtain ⟨rfl, rfl⟩ := Prod.mk.inj h
        exact ⟨[], rfl, rfl⟩
      · obtain ⟨rfl, rfl⟩ := Prod.mk.inj h
        obtain ⟨j, rest, rfl, hfound⟩ := mem_visitsFrom_iff.1 hmem
        exact ⟨_, rfl, by rwa [below?_cons, Nat.zero_add]⟩
    · rintro ⟨rest, rfl, hfound⟩
      match rest with
      | [] => exact .inl (by rw [below?] at hfound; rw [Option.some.inj hfound])
      | j :: rest =>
        refine .inr ⟨(j :: rest, found), mem_visitsFrom_iff.2 ⟨j, rest, ?_, hfound⟩, rfl⟩
        rw [Nat.zero_add]

theorem mem_visitsFrom_iff {i : Nat} {nodes : List Node} {found : Node} {address : List Nat} :
    (address, found) ∈ visitsFrom i nodes ↔
      ∃ j rest, address = (i + j) :: rest ∧ at? nodes (j :: rest) = some found := by
  match nodes with
  | [] => simp [visitsFrom, at?]
  | node :: nodes =>
    rw [visitsFrom, List.mem_append, mem_visits_iff, mem_visitsFrom_iff]
    constructor
    · rintro (⟨rest, rfl, hfound⟩ | ⟨j, rest, rfl, hfound⟩)
      · exact ⟨0, rest, rfl, hfound⟩
      · exact ⟨j + 1, rest, by rw [Nat.add_right_comm, Nat.add_assoc], hfound⟩
    · rintro ⟨j | j, rest, rfl, hfound⟩
      · exact .inl ⟨rest, rfl, hfound⟩
      · exact .inr ⟨j, rest, by rw [Nat.add_right_comm, Nat.add_assoc], hfound⟩

end

mutual

theorem pairwise_visits (i : Nat) (node : Node) : (visits i node).Pairwise (·.1 < ·.1) := by
  match node with
  | .mk type label children =>
    rw [visits, List.pairwise_cons, List.pairwise_map]
    refine ⟨?_, (pairwise_visitsFrom 0 children).imp fun h => List.cons_lt_cons_self.2 h⟩
    rintro _ h
    obtain ⟨⟨inner, found⟩, hmem, rfl⟩ := List.mem_map.1 h
    obtain ⟨j, rest, rfl, -⟩ := mem_visitsFrom_iff.1 hmem
    exact List.cons_lt_cons_self.2 (List.nil_lt_cons _ _)

theorem pairwise_visitsFrom (i : Nat) (nodes : List Node) :
    (visitsFrom i nodes).Pairwise (·.1 < ·.1) := by
  match nodes with
  | [] => exact .nil
  | node :: rest =>
    rw [visitsFrom, List.pairwise_append]
    refine ⟨pairwise_visits i node, pairwise_visitsFrom (i + 1) rest, ?_⟩
    rintro ⟨a, _⟩ ha ⟨b, _⟩ hb
    obtain ⟨_, rfl, -⟩ := mem_visits_iff.1 ha
    obtain ⟨j, _, rfl, -⟩ := mem_visitsFrom_iff.1 hb
    exact List.cons_lt_cons_iff.2 (.inl (by omega))

end

theorem isPreorder_visitsFrom (nodes : List Node) : IsPreorder nodes (visitsFrom 0 nodes) where
  mem_iff address node := by
    rw [mem_visitsFrom_iff]
    constructor
    · rintro ⟨j, rest, rfl, h⟩
      rwa [Nat.zero_add]
    · intro h
      match address with
      | [] => cases h
      | j :: rest => exact ⟨j, rest, by rw [Nat.zero_add], h⟩
  increasing := pairwise_visitsFrom 0 nodes

end Node

namespace TreeView

/-! ## What is drawn -/

/-- What is drawn before the node at an address: below an ancestor that has later siblings a line
goes on, below one that has none there is a blank, and a corner or a branch leads to the node
itself. -/
def strokes (siblings : List Node) : List Nat → String
  | [] => ""
  | [i] => if i + 1 < siblings.length then "├─" else "└─"
  | i :: j :: rest =>
    (if i + 1 < siblings.length then "│ " else "  ") ++
      strokes ((siblings[i]?.map Node.children).getD []) (j :: rest)

/-- The line of a node at an address, without its end. -/
def line (width : Nat) (siblings : List Node) (visit : List Nat × Node) : String :=
  strokes siblings visit.1 ++ " " ++ visit.2.type ++ ": " ++ truncate width visit.2.label

/-- The pieces of a text between its line feeds. -/
def pieces (text : String) : List String :=
  (text.toList.splitOn '\n').map String.ofList

/-- A tree view has a line for each node, in preorder, and every line is ended by a line feed. -/
def ShowsEachNode (width : Nat) (nodes : List Node) : Prop :=
  ∃ visits, Node.IsPreorder nodes visits ∧
    pieces (render width nodes) = visits.map (line width nodes) ++ [""]

mutual

theorem toList_nodeLines {width i : Nat} {indent : String} {last : Bool} {siblings : List Node}
    {node : Node} (h : siblings[i]? = some node) (hlast : last = false ↔ i + 1 < siblings.length) :
    (nodeLines width indent last node).toList = (node.visits i).flatMap fun visit =>
      indent.toList ++ (line width siblings visit).toList ++ ['\n'] := by
  match node with
  | .mk type label children =>
    -- below the node, its own cell comes first
    have hcell (visit : List Nat × Node) (hmem : visit ∈ Node.visitsFrom 0 children) :
        line width siblings (i :: visit.1, visit.2) =
          (if last then "  " else "│ ") ++ line width children visit := by
      obtain ⟨address, found⟩ := visit
      obtain ⟨j, rest, rfl, -⟩ := Node.mem_visitsFrom_iff.1 hmem
      cases last <;> simp [line, strokes, h, ← hlast, Node.children, String.append_assoc]
    have htop : line width siblings ([i], .mk type label children) =
        (if last then "└─" else "├─") ++ " " ++ type ++ ": " ++ truncate width label := by
      cases last <;> simp [line, strokes, ← hlast, Node.type, Node.label]
    have hbelow : (siblingLines width (indent ++ if last then "  " else "│ ") children).toList =
        (Node.visitsFrom 0 children).flatMap fun visit =>
          indent.toList ++ (line width siblings (i :: visit.1, visit.2)).toList ++ ['\n'] := by
      have hsiblings := @toList_siblingLines width
        (indent ++ if last then "  " else "│ ") [] children
      rw [hsiblings, List.nil_append, List.length_nil]
      exact List.flatMap_congr fun visit hmem => by simp [hcell visit hmem]
    rw [nodeLines, Node.visits, List.flatMap_cons, List.flatMap_map, String.toList_append, hbelow,
      htop]
    simp

theorem toList_siblingLines {width : Nat} {indent : String} {before nodes : List Node} :
    (siblingLines width indent nodes).toList =
      (Node.visitsFrom before.length nodes).flatMap fun visit =>
        indent.toList ++ (line width (before ++ nodes) visit).toList ++ ['\n'] := by
  match nodes with
  | [] => rfl
  | node :: rest =>
    have hnode := @toList_nodeLines width before.length indent rest.isEmpty (before ++ node :: rest)
      node (by simp) (by cases rest <;> simp)
    have hrest := @toList_siblingLines width indent (before ++ [node]) rest
    rw [siblingLines, String.toList_append, hnode, hrest, Node.visitsFrom, List.flatMap_append]
    simp only [List.append_assoc, List.cons_append, List.nil_append, List.length_append,
      List.length_singleton]

end

/-! ## Where lines are broken -/

theorem lineFeed_not_mem_strokes (siblings : List Node) (address : List Nat) :
    '\n' ∉ (strokes siblings address).toList := by
  fun_induction strokes siblings address with
  | case1 => simp
  | case2 | case3 => simp
  | case4 siblings i j rest ih =>
    rw [String.toList_append, List.mem_append, not_or]
    refine ⟨?_, ih⟩
    split <;> simp

/-- Three dots bring no line feed. -/
theorem lineFeed_mem_truncate_iff {width : Nat} {text : String} :
    '\n' ∈ (truncate width text).toList ↔ '\n' ∈ text.toList.take width := by
  unfold truncate
  simp only
  split
  · simp
  · next h => rw [List.take_of_length_le (Nat.le_of_not_lt h)]

theorem lineFeed_mem_line_iff {width : Nat} {siblings : List Node} {visit : List Nat × Node}
    (htype : '\n' ∉ visit.2.type.toList) :
    '\n' ∈ (line width siblings visit).toList ↔ '\n' ∈ visit.2.label.toList.take width := by
  have hstrokes := lineFeed_not_mem_strokes siblings visit.1
  simp [line, hstrokes, htype, lineFeed_mem_truncate_iff]

theorem not_mem_of_mem_splitOn {a : Char} {text piece : List Char} (h : piece ∈ text.splitOn a) :
    a ∉ piece := by
  induction text generalizing piece with
  | nil => simp_all
  | cons c text ih =>
    rw [List.splitOn_cons_eq_if_modifyHead] at h
    split at h
    · rcases List.mem_cons.1 h with rfl | h
      · exact List.not_mem_nil
      · exact ih h
    · next hc =>
      obtain ⟨head, tail, hsplit⟩ := List.exists_cons_of_ne_nil (List.splitOn_ne_nil a text)
      rw [hsplit] at h ih
      rcases List.mem_cons.1 h with rfl | h
      · rw [beq_iff_eq] at hc
        exact List.not_mem_cons_of_ne_of_not_mem (Ne.symm hc) (ih List.mem_cons_self)
      · exact ih (List.mem_cons_of_mem _ h)

theorem splitOn_flatMap {α : Type} {f : α → List Char} {xs : List α}
    (h : ∀ x ∈ xs, '\n' ∉ f x) :
    (xs.flatMap fun x => f x ++ ['\n']).splitOn '\n' = xs.map f ++ [[]] := by
  induction xs with
  | nil => exact List.splitOn_nil _
  | cons x xs ih =>
    obtain ⟨hx, hxs⟩ := List.forall_mem_cons.1 h
    rw [List.flatMap_cons, List.append_assoc, List.singleton_append,
      List.splitOn_append_cons_self_of_not_mem hx, ih hxs, List.map_cons, List.cons_append]

theorem toList_render (width : Nat) (nodes : List Node) :
    (render width nodes).toList = (Node.visitsFrom 0 nodes).flatMap fun visit =>
      (line width nodes visit).toList ++ ['\n'] := by
  have hsiblings := @toList_siblingLines width "" [] nodes
  rw [render, hsiblings]
  simp

/-- A tree view shows each node on a line of its own exactly if no label, as far as it is shown,
holds a line feed. -/
theorem showsEachNode_iff {width : Nat} {nodes : List Node}
    (htypes : ∀ address node, Node.at? nodes address = some node → '\n' ∉ node.type.toList) :
    ShowsEachNode width nodes ↔ ∀ address node, Node.at? nodes address = some node →
      '\n' ∉ node.label.toList.take width := by
  constructor
  · rintro ⟨visits, hvisits, hpieces⟩ address node h
    -- a line is one of the pieces, and those hold no line feed
    have hmem : line width nodes (address, node) ∈ pieces (render width nodes) := by
      rw [hpieces]
      exact List.mem_append_left _ (List.mem_map_of_mem ((hvisits.mem_iff _ _).2 h))
    obtain ⟨piece, hpiece, heq⟩ := List.mem_map.1 hmem
    have hline := @lineFeed_mem_line_iff width nodes (address, node) (htypes _ _ h)
    rw [← hline, ← heq, String.toList_ofList]
    exact not_mem_of_mem_splitOn hpiece
  · intro hlabels
    have hvisits := Node.isPreorder_visitsFrom nodes
    refine ⟨_, hvisits, ?_⟩
    rw [pieces, toList_render, splitOn_flatMap, List.map_append, List.map_map]
    · simp [Function.comp_def]
    · rintro ⟨address, node⟩ hmem
      have h := (hvisits.mem_iff _ _).1 hmem
      rw [lineFeed_mem_line_iff (htypes _ _ h)]
      exact hlabels _ _ h

end TreeView

/-! ## Which labels hold a line feed -/

namespace Text

theorem lineFeed_not_mem_hexadecimal (n : Nat) : '\n' ∉ hexadecimal n := by
  have hdigit : ∀ d < 16, '\n' ≠ d.digitChar := by decide
  unfold hexadecimal
  induction n using Nat.strongRecOn with
  | ind n ih =>
    rw [Nat.toDigits_eq_if (by decide)]
    split
    · next hn => exact List.mem_singleton.not.2 (hdigit n hn)
    · rw [List.mem_append, List.mem_singleton, not_or]
      exact ⟨ih (n / 16) (by omega), hdigit _ (Nat.mod_lt _ (by decide))⟩

theorem lineFeed_not_mem_quotedForm (c : Char) : '\n' ∉ quotedForm c := by
  by_cases hc : c = '\n'
  · subst hc
    decide
  · have hc' : '\n' ≠ c := Ne.symm hc
    have hhexadecimal := lineFeed_not_mem_hexadecimal c.toNat
    unfold quotedForm
    split_ifs <;> simp [hc', hhexadecimal]

theorem lineFeed_not_mem_quoted (text : String) : '\n' ∉ (quoted text).toList := by
  simp [quoted, lineFeed_not_mem_quotedForm]

end Text

theorem IsName.lineFeed_not_mem {name : String} (h : IsName name) : '\n' ∉ name.toList := by
  obtain ⟨hidentifier, -⟩ := h
  intro hmem
  unfold IsIdentifier at hidentifier
  split at hidentifier
  · exact hidentifier
  · next c rest hname =>
    obtain ⟨hstart, hrest⟩ := hidentifier
    rw [hname] at hmem
    rcases List.mem_cons.1 hmem with rfl | hmem
    · exact absurd hstart (by decide)
    · exact absurd (hrest _ hmem) (by decide)

namespace Pattern

mutual

theorem lineFeed_not_mem_source {p : Pattern} (h : ∀ name ∈ p.boundNames, IsName name) :
    '\n' ∉ p.source.toList := by
  match p with
  | .var name => exact (h name (List.mem_singleton_self _)).lineFeed_not_mem
  | .tuple ps => simpa [source] using lineFeed_not_mem_sources true h

theorem lineFeed_not_mem_sources {ps : List Pattern} (first : Bool)
    (h : ∀ name ∈ boundNamesOf ps, IsName name) : '\n' ∉ (sources first ps).toList := by
  match ps with
  | [] => simp [sources]
  | p :: ps =>
    obtain ⟨hp, hps⟩ := List.forall_mem_append.1 h
    have hsource := lineFeed_not_mem_source hp
    have hsources := lineFeed_not_mem_sources false hps
    cases first <;> simp [sources, hsource, hsources]

end

end Pattern

/-- The string literals in an expression. -/
def Expression.strings : Expression → List String
  | .literal (.string value) => [value]
  | _ => []

theorem Expression.lineFeed_mem_label_iff {e : Expression} (h : e.IsWritable) :
    '\n' ∈ e.node.label.toList ↔ ∃ value ∈ e.strings, '\n' ∈ value.toList := by
  match e with
  | .reference name =>
    have hname := IsName.lineFeed_not_mem h
    simpa [node, Node.leaf, Node.label, strings] using hname
  | .literal (.string value) =>
    simp only [node, Node.leaf, Node.label, Literal.source, strings]
    split <;> simp
  | .literal (.integer digits) =>
    have hdigits : '\n' ∉ digits.toList := fun hmem => absurd (h.2 _ hmem) (by decide)
    simpa [node, Node.leaf, Node.label, Literal.source, strings] using hdigits

namespace TextStatement

/-- The string literals in a statement, apart from its body. -/
def strings : TextStatement → List String
  | .plain _ => []
  | .interpolation e => e.strings
  | .forIn _ iterable _ => iterable.strings
  | .join _ iterable separator _ => iterable.strings ++ separator.strings

/-- In a template that was read, only a string literal brings a line feed into a label. -/
theorem lineFeed_mem_label_iff {u : TextStatement} (h : u.IsSound) :
    '\n' ∈ u.node.label.toList ↔ ∃ value ∈ u.strings, '\n' ∈ value.toList := by
  match u with
  | .plain content =>
    have hcontent := Text.lineFeed_not_mem_quoted content
    simpa [node, Statement.node, textNode, Node.leaf, Node.label, strings] using hcontent
  | .interpolation e => exact Expression.lineFeed_mem_label_iff h
  | .forIn binder iterable _ =>
    obtain ⟨hbinder, hiterable⟩ := h
    have hsource := Pattern.lineFeed_not_mem_source hbinder
    rw [strings, ← Expression.lineFeed_mem_label_iff hiterable]
    simp [node, Statement.node, forInNode, Node.label, hsource]
  | .join binder iterable separator _ =>
    obtain ⟨hbinder, hiterable, hseparator⟩ := h
    have hsource := Pattern.lineFeed_not_mem_source hbinder
    simp only [strings, List.mem_append, or_and_right, exists_or,
      ← Expression.lineFeed_mem_label_iff hiterable,
      ← Expression.lineFeed_mem_label_iff hseparator]
    simp [node, Statement.node, joinNode, Node.label, hsource]

theorem lineFeed_not_mem_type (u : TextStatement) : '\n' ∉ u.node.type.toList := by
  cases u
  case plain => simp [node, Statement.node, textNode, Node.leaf, Node.type]
  case interpolation => simp [node, Statement.node, interpolationNode, Node.leaf, Node.type]
  case forIn => simp [node, Statement.node, forInNode, Node.type]
  case join => simp [node, Statement.node, joinNode, Node.type]

/-! ## The nodes of a template -/

theorem nodes_eq_map (us : List TextStatement) : nodes us = us.map node := by
  induction us with
  | nil => rfl
  | cons u us ih =>
    rw [List.map_cons, ← ih]
    rfl

theorem children_node (u : TextStatement) :
    u.node.children = [] ∨ ∃ body, u.node.children = nodes body ∧ bodies u = levelsOf body := by
  cases u
  case plain | interpolation => exact .inl rfl
  case forIn body | join body => exact .inr ⟨body, rfl, rfl⟩

theorem mem_levelsOf_of_mem_bodies {us level : List TextStatement} {u : TextStatement}
    (hu : u ∈ us) (h : level ∈ bodies u) : level ∈ levelsOf us := by
  refine List.mem_cons_of_mem _ ?_
  induction us with
  | nil => cases hu
  | cons v us ih =>
    rw [bodiesOf, List.mem_append]
    rcases List.mem_cons.1 hu with rfl | hu
    · exact .inl h
    · exact .inr (ih hu)

/-- The nodes of a template are those of the statements at all of its levels. -/
theorem exists_of_at?_nodes {us : List TextStatement} {address : List Nat} {found : Node}
    (h : Node.at? (nodes us) address = some found) :
    ∃ level ∈ levelsOf us, ∃ u ∈ level, u.node = found := by
  match address with
  | [] => cases h
  | i :: rest =>
    rw [Node.at?, nodes_eq_map, List.getElem?_map, Option.bind_map, Option.bind_eq_some_iff] at h
    obtain ⟨u, hu, hfound⟩ := h
    have hmem : u ∈ us := List.mem_of_getElem? hu
    match rest with
    | [] => exact ⟨us, List.mem_cons_self, u, hmem, Option.some.inj hfound⟩
    | j :: rest =>
      rw [Function.comp_apply, Node.below?_cons] at hfound
      rcases children_node u with hleaf | ⟨body, hbody, hlevels⟩
      · rw [hleaf] at hfound
        cases hfound
      · rw [hbody] at hfound
        obtain ⟨level, hlevel, hfound⟩ := exists_of_at?_nodes hfound
        exact ⟨level, mem_levelsOf_of_mem_bodies hmem (hlevels ▸ hlevel), hfound⟩

end TextStatement

open TextStatement

/-- The tree view of a template that was read has a line for each node exactly if no label, as far
as it is shown, holds a line feed. One that does belongs to a statement with a string literal that
does. -/
theorem showsEachNode_iff_of_parse {source : String} {template : List TextStatement}
    (h : parse source = .ok template) (width : Nat) :
    (TreeView.ShowsEachNode width (nodes template) ↔
        ∀ address node, Node.at? (nodes template) address = some node →
          '\n' ∉ node.label.toList.take width) ∧
      ∀ address node, Node.at? (nodes template) address = some node → '\n' ∈ node.label.toList →
        ∃ level ∈ levelsOf template, ∃ u ∈ level, u.node = node ∧
          ∃ value ∈ u.strings, '\n' ∈ value.toList := by
  have hform := (exists_parse_eq_ok_iff_inNormalForm template).1 ⟨source, h⟩
  constructor
  · refine TreeView.showsEachNode_iff fun address node hnode => ?_
    obtain ⟨_, -, u, -, rfl⟩ := exists_of_at?_nodes hnode
    exact lineFeed_not_mem_type u
  · intro address node hnode hmem
    obtain ⟨level, hlevel, u, hu, rfl⟩ := exists_of_at?_nodes hnode
    have hsound := hform.sound level hlevel u hu
    exact ⟨level, hlevel, u, hu, rfl, (lineFeed_mem_label_iff hsound).1 hmem⟩

/-- Two blocks, one in the other, with text behind the inner one. -/
def nestedSource : String :=
  "\x7b%for (k, v) in m%\x7d\x7b%join x in v with ', '%\x7d" ++
    "\x7b\x7bx\x7d\x7d\n\x7b%endjoin%\x7d.\x7b%endfor%\x7d"

/-- Blocks within each other, a text with a line feed, and labels that are cut off. -/
theorem showsEachNode_nested :
    ∃ template, parse nestedSource = .ok template ∧ TreeView.ShowsEachNode 4 (nodes template) := by
  let template : List TextStatement :=
    [.forIn (.tuple [.var "k", .var "v"]) (.reference "m")
      [.join (.var "x") (.reference "v") (.literal (.string ", "))
        [.interpolation (.reference "x"), .plain "\n"], .plain "."]]
  have hparse : parse nestedSource = .ok template := by decide +kernel
  have hstrings : ∀ level ∈ levelsOf template, ∀ u ∈ level, ∀ value ∈ u.strings,
      '\n' ∉ value.toList := by decide +kernel
  obtain ⟨hiff, hliteral⟩ := showsEachNode_iff_of_parse hparse 4
  refine ⟨template, hparse, hiff.2 fun address node hnode hmem => ?_⟩
  obtain ⟨level, hlevel, u, hu, -, value, hvalue, hfeed⟩ :=
    hliteral address node hnode (List.mem_of_mem_take hmem)
  exact hstrings level hlevel u hu value hvalue hfeed

/-- A string literal over two lines breaks the line of its statement. -/
theorem not_showsEachNode_string :
    ∃ template, parse "\x7b\x7b \"a\nb\" \x7d\x7d" = .ok template ∧
      ¬ TreeView.ShowsEachNode TreeView.standardWidth (nodes template) := by
  refine ⟨[.interpolation (.literal (.string "a\nb"))], by decide +kernel, fun hshows => ?_⟩
  have hlabels := (TreeView.showsEachNode_iff fun address node hnode => ?_).1 hshows
  · exact hlabels [0] _ rfl (by decide +kernel)
  · obtain ⟨_, -, u, -, rfl⟩ := exists_of_at?_nodes hnode
    exact lineFeed_not_mem_type u

end Stencil
