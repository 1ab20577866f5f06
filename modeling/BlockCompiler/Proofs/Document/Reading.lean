import BlockCompiler.Proofs.Document.Met
import BlockCompiler.Proofs.Document.Variable

set_option autoImplicit false

/-! # Outlines of what is met

Reading a document gives an outline for every block that is met in it, in the order in which they
are met. An outline says of its block what the element writes down: the attributes of the element,
the texts of its fields and the attributes of its mutations, each as it was written last. -/

namespace BlockCompiler

namespace Markup

/-- The names and texts of the fields among the nodes. -/
def fieldsOf (nodes : List Node) : List (String × String) :=
  ((elements nodes).filter (·.name = "field")).map fun e =>
    ((e.attributes.get? "name").getD "", ownText e.children)

/-- The attributes of the mutations among the nodes. -/
def mutationsOf (nodes : List Node) : List (String × String) :=
  ((elements nodes).filter (·.name = "mutation")).flatMap (·.attributes.entries)

theorem fieldsOf_element (name : String) (attributes : Ledger String) (children rest : List Node) :
    fieldsOf (.element name attributes children :: rest) =
      (if name = "field" then [((attributes.get? "name").getD "", ownText children)] else []) ++
        fieldsOf rest := by
  by_cases h : name = "field" <;> simp [fieldsOf, elements_element, h]

theorem mutationsOf_element (name : String) (attributes : Ledger String)
    (children rest : List Node) : mutationsOf (.element name attributes children :: rest) =
      (if name = "mutation" then attributes.entries else []) ++ mutationsOf rest := by
  by_cases h : name = "mutation" <;> simp [mutationsOf, elements_element, h]

/-- The block that an element writes down, if it is the block of the given number. -/
def Element.written (e : Element) (number : BlockId) : Block where
  id := (e.attributes.get? "id").getD ((e.attributes.get? "type").getD "" ++ "#" ++ toString number)
  type := (e.attributes.get? "type").getD ""
  disabled := (e.attributes.get? "disabled").any fun text => Text.equalIgnoringCase text "true"
  x := Outline.coordinate (e.attributes.get? "x")
  y := Outline.coordinate (e.attributes.get? "y")
  fields := .ofList (fieldsOf e.children)
  mutation := .ofList (mutationsOf e.children)

end Markup

namespace Outline

open Markup

/-! ## Content without links -/

/-- The blocks in some content, in the order in which they are opened. -/
def Content.blocks : Content → List (Head × Content)
  | .done => []
  | .mutation _ rest => rest.blocks
  | .field _ _ _ rest => rest.blocks
  | .link _ head inner rest => (head, inner) :: inner.blocks ++ rest.blocks

/-- What content says of its own block. -/
def Content.fill : Content → Block → Block
  | .done, b => b
  | .mutation attributes rest, b => rest.fill (mutate attributes b)
  | .field name text _ rest, b => rest.fill { b with fields := b.fields.put name text }
  | .link _ _ _ rest, b => rest.fill b

/-- The blocks of an item. -/
def Item.blocks : Item → List (Head × Content)
  | .declarations _ => []
  | .stack head content => (head, content) :: content.blocks

theorem attach_blocks (link : Link) (found : Option (Head × Content)) (rest : Content) :
    (attach link found rest).blocks =
      (found.map fun entry => entry :: entry.2.blocks).getD [] ++ rest.blocks := by
  cases found <;> rfl

theorem attach_fill (link : Link) (found : Option (Head × Content)) (rest : Content) (b : Block) :
    (attach link found rest).fill b = rest.fill b := by
  cases found <;> rfl

/-! ## What is read -/

/-- An outline of an element. -/
def Reads (e : Element) (entry : Head × Content) : Prop :=
  head? e.attributes = .ok entry.1 ∧ content? e.children = .ok entry.2

/-- The blocks among what is met. -/
def blocksOf (met : List Met) : List Element := met.filterMap Met.block?

theorem blocksOf_append (met met' : List Met) :
    blocksOf (met ++ met') = blocksOf met ++ blocksOf met' :=
  List.filterMap_append

theorem blocksOf_block (e : Element) (met : List Met) :
    blocksOf (.block e :: met) = e :: blocksOf met := rfl

theorem name?_eq_ok {element name : String} {attributes : Ledger String}
    (h : name? element attributes = .ok name) : attributes.get? "name" = some name := by
  unfold name? at h
  split at h
  · next found hfound =>
    cases h
    exact hfound
  · cases h

theorem head?_eq_ok {attributes : Ledger String} {head : Head} (h : head? attributes = .ok head) :
    ∃ type, attributes.get? "type" = some type ∧ head =
      { type
        id? := attributes.get? "id"
        x := coordinate (attributes.get? "x")
        y := coordinate (attributes.get? "y")
        disabled :=
          (attributes.get? "disabled").any fun text => Text.equalIgnoringCase text "true" } := by
  unfold head? at h
  split at h
  · cases h
  · next type htype =>
    cases h
    exact ⟨type, (Option.filter_eq_some_iff.1 htype).1, rfl⟩

/-- What an element inside of a block contributes to the content. -/
theorem content?_element {element : String} {attributes : Ledger String} {children rest : List Node}
    {content : Content} (h : content? (.element element attributes children :: rest) = .ok content) :
    ∃ others, content? rest = .ok others ∧
      ((element = "mutation" ∧ content = .mutation attributes others) ∨
      (element = "field" ∧ ∃ name declares, attributes.get? "name" = some name ∧
        content = .field name (ownText children) declares others) ∨
      (element ∈ ["value", "statement", "next"] ∧ ∃ link found,
        connected? (wanted children) children = .ok found ∧ content = attach link found others) ∨
      (element ∉ ["mutation", "field", "value", "statement", "next"] ∧ content = others)) := by
  unfold content? at h
  split at h
  · obtain ⟨others, hothers, h⟩ := exists_of_bind_ok h
    cases h
    exact ⟨others, hothers, .inl ⟨rfl, rfl⟩⟩
  · obtain ⟨name, hname, h⟩ := exists_of_bind_ok h
    obtain ⟨others, hothers, h⟩ := exists_of_bind_ok h
    cases h
    exact ⟨others, hothers, .inr (.inl ⟨rfl, name, _, name?_eq_ok hname, rfl⟩)⟩
  · obtain ⟨name, -, h⟩ := exists_of_bind_ok h
    obtain ⟨found, hfound, h⟩ := exists_of_bind_ok h
    obtain ⟨others, hothers, h⟩ := exists_of_bind_ok h
    cases h
    exact ⟨others, hothers, .inr (.inr (.inl ⟨by decide, .value name, found, hfound, rfl⟩))⟩
  · obtain ⟨name, -, h⟩ := exists_of_bind_ok h
    obtain ⟨found, hfound, h⟩ := exists_of_bind_ok h
    obtain ⟨others, hothers, h⟩ := exists_of_bind_ok h
    cases h
    exact ⟨others, hothers, .inr (.inr (.inl ⟨by decide, .statement name, found, hfound, rfl⟩))⟩
  · obtain ⟨found, hfound, h⟩ := exists_of_bind_ok h
    obtain ⟨others, hothers, h⟩ := exists_of_bind_ok h
    cases h
    exact ⟨others, hothers, .inr (.inr (.inl ⟨by decide, .next, found, hfound, rfl⟩))⟩
  · next hmutation hfield hvalue hstatement hnext =>
    refine ⟨content, h, .inr (.inr (.inr ⟨?_, rfl⟩))⟩
    simp only [List.mem_cons, List.not_mem_nil, or_false, not_or]
    exact ⟨hmutation, hfield, hvalue, hstatement, hnext⟩

theorem blocksOf_part (c : Bool) (e : Element) : blocksOf (if c then [.part e] else []) = [] := by
  cases c <;> rfl

mutual

/-- Content has the blocks that are met. -/
theorem content?_blocks (nodes : List Node) {content : Content} (h : content? nodes = .ok content) :
    List.Forall₂ Reads (blocksOf (metIn nodes)) content.blocks := by
  match nodes with
  | [] =>
    rw [content?] at h
    cases h
    rw [metIn]
    exact .nil
  | .text _ :: rest =>
    rw [content?] at h
    rw [metIn]
    exact content?_blocks rest h
  | .element element attributes children :: rest =>
    obtain ⟨others, hothers, hcontent⟩ := content?_element h
    have hrest : List.Forall₂ Reads (blocksOf (metIn rest)) others.blocks :=
      content?_blocks rest hothers
    rw [metIn, metFirst_wanted, blocksOf_append, blocksOf_append, blocksOf_part, List.nil_append]
    rcases hcontent with ⟨rfl, rfl⟩ | ⟨rfl, name, declares, -, rfl⟩ |
      ⟨hlink, link, found, hfound, rfl⟩ | ⟨helement, rfl⟩
    · exact hrest
    · exact hrest
    · rw [if_pos (List.contains_iff_mem.2 hlink), attach_blocks]
      exact List.rel_append (connected?_blocks _ children hfound) hrest
    · -- other elements are passed over
      have hsocket : element ∉ ["value", "statement", "next"] := fun hmem =>
        helement (List.mem_cons_of_mem _ (List.mem_cons_of_mem _ hmem))
      rw [if_neg (mt List.contains_iff_mem.1 hsocket)]
      exact hrest

theorem connected?_blocks (wanted : String) (nodes : List Node) {found : Option (Head × Content)}
    (h : connected? wanted nodes = .ok found) :
    List.Forall₂ Reads (blocksOf ((metFirst wanted nodes).getD []))
      ((found.map fun entry => entry :: entry.2.blocks).getD []) := by
  match nodes with
  | [] =>
    rw [connected?] at h
    cases h
    rw [metFirst]
    exact .nil
  | .text _ :: rest =>
    rw [connected?] at h
    rw [metFirst]
    exact connected?_blocks wanted rest h
  | .element element attributes children :: rest =>
    unfold connected? at h
    rw [metFirst]
    by_cases helement : element = wanted
    · rw [if_pos (beq_iff_eq.2 helement)] at h
      obtain ⟨head, hhead, h⟩ := exists_of_bind_ok h
      obtain ⟨content, hcontent, h⟩ := exists_of_bind_ok h
      cases h
      rw [if_pos helement]
      exact .cons ⟨hhead, hcontent⟩ (content?_blocks children hcontent)
    · rw [if_neg fun heq => helement (eq_of_beq heq)] at h
      rw [if_neg helement]
      exact connected?_blocks wanted rest h

end

theorem items?_blocks (nodes : List Node) {items : List Item} (h : items? nodes = .ok items) :
    List.Forall₂ Reads (blocksOf (metOn nodes)) (items.flatMap Item.blocks) := by
  induction nodes generalizing items with
  | nil =>
    cases h
    exact .nil
  | cons node rest ih =>
    cases node with
    | text _ => exact ih h
    | element element attributes children =>
      unfold items? at h
      rw [metOn_element, blocksOf_append]
      split at h
      · obtain ⟨others, hothers, h⟩ := exists_of_bind_ok h
        cases h
        have hrest := ih hothers
        exact hrest
      · obtain ⟨head, hhead, h⟩ := exists_of_bind_ok h
        obtain ⟨content, hcontent, h⟩ := exists_of_bind_ok h
        obtain ⟨others, hothers, h⟩ := exists_of_bind_ok h
        cases h
        have hcontents : List.Forall₂ Reads (blocksOf (metIn children)) content.blocks :=
          content?_blocks children hcontent
        rw [if_pos rfl, blocksOf_block, List.flatMap_cons]
        exact List.rel_append (.cons ⟨hhead, hcontent⟩ hcontents) (ih hothers)
      · next hvariables hblock =>
        rw [if_neg hblock]
        exact ih h

/-- Content says of its block what the fields and mutations say. -/
theorem content?_fill (nodes : List Node) {content : Content} (h : content? nodes = .ok content)
    (b : Block) : content.fill b = { b with
      fields := (fieldsOf nodes).foldl (fun l (key, text) => l.put key text) b.fields
      mutation := (mutationsOf nodes).foldl (fun l (key, text) => l.put key text) b.mutation } := by
  induction nodes generalizing content b with
  | nil =>
    rw [content?] at h
    cases h
    rfl
  | cons node rest ih =>
    cases node with
    | text _ =>
      rw [content?] at h
      exact ih h b
    | element element attributes children =>
      obtain ⟨others, hothers, hcontent⟩ := content?_element h
      rw [fieldsOf_element, mutationsOf_element]
      rcases hcontent with ⟨rfl, rfl⟩ | ⟨rfl, name, declares, hname, rfl⟩ |
        ⟨hlink, link, found, -, rfl⟩ | ⟨helement, rfl⟩
      · rw [if_neg (by decide), if_pos rfl, List.nil_append, List.foldl_append]
        exact ih hothers (mutate attributes b)
      · rw [if_pos rfl, hname]
        exact ih hothers { b with fields := b.fields.put name (ownText children) }
      · rw [if_neg, if_neg, attach_fill]
        · exact ih hothers b
        · rintro rfl
          exact absurd hlink (by decide)
        · rintro rfl
          exact absurd hlink (by decide)
      · rw [if_neg, if_neg]
        · exact ih hothers b
        · rintro rfl
          exact helement (by decide)
        · rintro rfl
          exact helement (by decide)

/-- The outline of an element is the block that the element writes down. -/
theorem fill_of_reads {e : Element} {entry : Head × Content} (h : Reads e entry)
    (number : BlockId) : entry.2.fill (entry.1.block number) = e.written number := by
  obtain ⟨head, content⟩ := entry
  obtain ⟨hhead, hcontent⟩ := h
  rw [content?_fill e.children hcontent]
  obtain ⟨type, htype, rfl⟩ : ∃ type, e.attributes.get? "type" = some type ∧ head = _ :=
    head?_eq_ok hhead
  rw [Element.written, htype]
  rfl

end Outline

end BlockCompiler
