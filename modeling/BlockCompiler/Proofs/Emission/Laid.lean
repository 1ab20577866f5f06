import BlockCompiler.Proofs.Emission.Code
import BlockCompiler.Proofs.Emit.Layout

set_option autoImplicit false

/-! # Code that stands in the program

The main function holds the stacks on the canvas, branches and loops hold the stacks in their sockets,
and a function that is new holds its own. A block that is held in this way gets code, and each line of
its code is, moved in, a line of the body of the main function or of a function. -/

namespace BlockCompiler

namespace Project

open Workspace

variable {p : Project}

/-- The body of the main function. -/
def body (p : Project) : String := (p.run p.mainBody .empty).1

/-- A line with the given start stands in the body of the main function or in a function. -/
def HasLine (p : Project) (start : String) : Prop :=
  Text.HasLine start p.body ∨
    ∃ name text, p.final.context.text? .methods name = some text ∧ Text.HasLine start text

/-- The code of a block is held by the main function or by a function. -/
inductive Laid (p : Project) : BlockId → Prop where
  | main {x : BlockId} : x ∈ p.mainReads → Laid p x
  | inside {id x : BlockId} {b : Block} {kind : Kind} {socket : String} :
    p.workspace.block? id = some b → Kind.ofName? b.type = some kind →
    Emit.holdsStacks kind = true → .stack socket ∈ Emit.slots b kind →
    x ∈ p.filled b (.stack socket) → Laid p id → Laid p x
  | function {id x : BlockId} {b : Block} :
    p.workspace.block? id = some b → Kind.ofName? b.type = some .procedure →
    x ∈ p.filled b (.stack "STACK") → p.codeOf? id = some (.statement "") → Laid p x

/-! ## The main function -/

section Main

variable {start : String} {x : BlockId}

theorem definitionCode_shows : (definitionCode x).Shows start x (Text.HasLine start) := by
  refine (Recipe.Shows.code x).bind_left fun fragment => ?_
  cases fragment with
  | statement text =>
    refine .pure ?_
    rintro ⟨_, ⟨⟩, hline⟩
    exact hline
  | expression found => exact .pure nofun

theorem stackCode_shows {id : BlockId} (hx : x ∈ p.stackReads id) :
    (p.stackCode id).Shows start x (Text.HasLine start) := by
  have hchain : x ∈ (p.workspace.chainFrom id).members.filter p.workspace.takesPart →
      (Emit.chain p id).Shows start x (Text.HasLine start) := by
    intro hx
    obtain ⟨hmember, htakes⟩ := List.mem_filter.1 hx
    exact Emit.chain_shows p htakes hmember
  unfold stackReads at hx
  unfold stackCode
  cases hb : p.workspace.block? id with
  | none => rw [hb] at hx; cases hx
  | some b =>
    rw [hb] at hx
    dsimp only at hx ⊢
    cases hshape : (p.definition? b).map Definition.shape with
    | none => rw [hshape] at hx; exact hchain hx
    | some shape =>
      rw [hshape] at hx
      cases shape with
      | statement => exact hchain hx
      | value => cases hx
      | definition =>
        dsimp only at hx ⊢
        split at hx
        · next hdisabled => rw [if_pos hdisabled]; exact hchain hx
        · next henabled =>
          rw [if_neg henabled]
          obtain rfl := List.mem_singleton.1 hx
          exact definitionCode_shows

theorem mainBody_shows (hx : x ∈ p.mainReads) :
    p.mainBody.Shows start x (Text.HasLine start) := by
  obtain ⟨id, hid, hx⟩ := List.mem_flatMap.1 hx
  refine Recipe.Shows.bind_right (Recipe.Yields.any _) fun _ _ => ?_
  refine Recipe.Shows.concat (List.mem_map_of_mem hid) (stackCode_shows hx) ?_
  intro r hr
  obtain ⟨id', hid', rfl⟩ := List.mem_map.1 hr
  exact (p.stackCode_meets hid').outcome

end Main

/-! ## Layout -/

theorem mem_values_of_text? {c : Context} {part : Section} {key text : String}
    (h : c.text? part key = some text) : text ∈ (c.ledger part).values :=
  List.mem_map_of_mem (Context.mem_entries_of_text? h)

/-- A text is one of those that a part of the program consists of. -/
def Lists (p : Project) (title separator text : String) : Prop :=
  ∃ front before after back, p.compile.source =
    front ++ titled title (separator.intercalate (before ++ text :: after)) ++ back

/-- Every part stands in the program. -/
theorem exists_source_of_mem_parts {part : String} (h : part ∈ p.parts p.final.context p.body) :
    ∃ front back, p.compile.source = front ++ part ++ back := by
  obtain ⟨before, after, hparts⟩ := List.append_of_mem h
  obtain ⟨front, back, hsource, -⟩ := Text.exists_intercalate_eq "\n\n" part before after
  refine ⟨front, back ++ "\n", ?_⟩
  rw [show p.compile.source = p.layout p.final.context p.body from rfl, layout, hparts, hsource,
    String.append_assoc]

theorem lists_of_mem {title separator text : String} {texts : List String}
    (hpart : ∀ part ∈ titledUnlessEmpty title separator texts,
      part ∈ p.parts p.final.context p.body) (htext : text ∈ texts) :
    p.Lists title separator text := by
  obtain ⟨before, after, rfl⟩ := List.append_of_mem htext
  have htitled : titledUnlessEmpty title separator (before ++ text :: after) =
      [titled title (separator.intercalate (before ++ text :: after))] := if_neg (by simp)
  rw [htitled] at hpart
  obtain ⟨front, back, hsource⟩ := exists_source_of_mem_parts (hpart _ List.mem_cons_self)
  exact ⟨front, before, after, back, hsource⟩

section Parts

variable (c : Context) (body : String)

theorem mem_parts_globals : ∀ part ∈ titledUnlessEmpty "Global Variables and Objects" "\n"
    (c.globals.values ++ p.variableDeclarations c), part ∈ p.parts c body := by
  simp +contextual [parts]

theorem mem_parts_declarations : ∀ part ∈ titledUnlessEmpty "Function Declarations" "\n"
    c.declarations.values, part ∈ p.parts c body := by
  simp +contextual [parts]

theorem mem_parts_methods : ∀ part ∈ titledUnlessEmpty "Functions" "\n\n"
    (c.methods.values.map Text.trimmedRight), part ∈ p.parts c body := by
  simp +contextual [parts]

end Parts

/-! ## Lines -/

variable (h : p.workspace.IsForest p.workspace.top)

include h

/-- A block that is held has code, and its lines are lines of the program. -/
theorem hasLine_of_laid {start : String} (hvisible : Text.allBlank start.toList = false)
    (hstart : '\n' ∉ start.toList) {x : BlockId} (hx : p.Laid x) :
    ∃ fragment, p.codeOf? x = some fragment ∧
      ∀ code, fragment = .statement code → Text.HasLine start code → p.HasLine start := by
  -- from the main function inwards: the code around a block has code, and shows its lines
  induction hx with
  | main hx =>
    obtain ⟨es, hpath, hclosed, hcodes⟩ := path_of_mainBody h
    obtain ⟨fragment, hmem, hshown⟩ := mainBody_shows hx es _ hpath hclosed
    exact ⟨fragment, hcodes _ _ hmem, fun code hcode hline => .inl (hshown code hcode hline)⟩
  | inside hb hkind hholds hsocket hx _ ih =>
    obtain ⟨outer, houter, hshow⟩ := ih
    obtain ⟨b, es, hb', htook, hcodes, -⟩ := path_of_codeOf? h houter
    obtain rfl := Option.some_inj.1 (hb.symm.trans hb')
    obtain ⟨fragment, hmem, hshown⟩ :=
      Emit.recipe_shows hvisible hstart hkind hholds hsocket hx _ es _ htook.path htook.closed
    refine ⟨fragment, hcodes _ _ hmem, fun code hcode hline => ?_⟩
    obtain ⟨text, htext, hline'⟩ := hshown code hcode hline
    exact hshow text htext hline'
  | function hb hkind hx hcode =>
    obtain ⟨b, es, hb', htook, hcodes, hstays⟩ := path_of_codeOf? h hcode
    obtain rfl := Option.some_inj.1 (hb.symm.trans hb')
    have hpath := htook.path
    rw [Emit.recipe_of_kind hkind] at hpath
    obtain ⟨es₁, text, es₂, rfl, hprocedure, hpure⟩ := hpath.of_bind
    obtain ⟨rfl, heq⟩ := hpure.of_pure
    obtain rfl := Fragment.statement.inj heq
    obtain ⟨fragment, hmem, name, text, htext, hshown⟩ := Emit.procedure_path p _ hvisible hstart
      hprocedure (fun e he => htook.closed e (List.mem_append_left _ he)) hx
    refine ⟨fragment, hcodes _ _ (List.mem_append_left _ hmem), fun code hcode' hline => ?_⟩
    have hmethod := hstays .methods name text nofun (List.mem_append_left _ htext)
    exact .inr ⟨name, text, hmethod, hshown code hcode' hline⟩

end Project

end BlockCompiler
