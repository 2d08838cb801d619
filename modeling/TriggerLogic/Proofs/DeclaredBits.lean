import Mathlib.Data.List.Nodup
import TriggerLogic.Proofs.AssignmentOrder
import TriggerLogic.Proofs.InputBits

namespace TriggerLogic

section Repeated

variable {α : Type} {name : α → Text} {span : α → Span} {items : List α}

def FirstRepeated (name : α → Text) (items : List α) (item : α) : Prop :=
  ∃ earlier later, items = earlier ++ item :: later ∧ (earlier.map name).Nodup ∧
    name item ∈ earlier.map name

theorem FirstRepeated.not_nodup {item : α} (first : FirstRepeated name items item) :
    ¬ (items.map name).Nodup := by
  intro distinct
  obtain ⟨earlier, later, rfl, -, again⟩ := first
  rw [List.map_append, List.nodup_append] at distinct
  exact distinct.2.2 _ again _ List.mem_cons_self rfl

theorem firstRepeated?_cases {done : List α} (distinct : (done.map name).Nodup) (rest : List α) :
    (firstRepeated? (done.map name).reverse (rest.map fun item => (name item, span item)) = none ∧
        ((done ++ rest).map name).Nodup) ∨
      ∃ item, FirstRepeated name (done ++ rest) item ∧
        firstRepeated? (done.map name).reverse (rest.map fun item => (name item, span item)) =
          some (name item, span item) := by
  induction rest generalizing done with
  | nil =>
    left
    rw [List.append_nil]
    exact ⟨rfl, distinct⟩
  | cons item rest ih =>
    rw [List.map_cons, firstRepeated?]
    by_cases again : name item ∈ done.map name
    · right
      refine ⟨item, ⟨done, rest, rfl, distinct, again⟩, ?_⟩
      rw [if_pos (List.contains_iff_mem.mpr (List.mem_reverse.mpr again))]
    · have fresh : ¬ (done.map name).reverse.contains (name item) = true := by
        rw [List.contains_iff_mem, List.mem_reverse]
        exact again
      have more : ((done ++ [item]).map name).Nodup := by
        rw [List.map_append, List.map_singleton, List.nodup_append]
        refine ⟨distinct, List.nodup_singleton _, ?_⟩
        intro earlier listed other single same
        exact again (List.mem_singleton.mp single ▸ same ▸ listed)
      have step := ih more
      rw [List.map_append, List.map_singleton, List.reverse_append, List.append_assoc] at step
      rw [if_neg fresh]
      exact step

theorem distinctNames_cases (name : α → Text) (span : α → Span) (items : List α) :
    (distinctNames (items.map fun item => (name item, span item)) = .ok () ∧
        (items.map name).Nodup) ∨
      ∃ item, FirstRepeated name items item ∧
        distinctNames (items.map fun item => (name item, span item)) =
          .error (.duplicateSignal (name item) (span item)) := by
  rcases @firstRepeated?_cases α name span [] List.nodup_nil items with
    ⟨unseen, distinct⟩ | ⟨item, first, found⟩
  · left
    rw [distinctNames, show firstRepeated? [] _ = none from unseen]
    exact ⟨rfl, distinct⟩
  · right
    refine ⟨item, first, ?_⟩
    rw [distinctNames, show firstRepeated? [] _ = _ from found]

/-- Refused where a name comes again and nowhere else, for the first item that brings one. -/
def RefusesRepeated {β : Type} (name : α → Text) (span : α → Span) (items : List α)
    (outcome : Except SourceFault β) : Prop :=
  ((∃ fault, outcome = .error fault) ↔ ¬ (items.map name).Nodup) ∧
    ∀ fault, outcome = .error fault → ∃ item, FirstRepeated name items item ∧
      fault = .duplicateSignal (name item) (span item)

theorem refusesRepeated_distinctNames {β : Type} (value : Unit → β) (name : α → Text)
    (span : α → Span) (items : List α) :
    RefusesRepeated name span items
      ((distinctNames (items.map fun item => (name item, span item))).map value) := by
  rcases distinctNames_cases name span items with ⟨accepted, distinct⟩ | ⟨item, first, refused⟩
  · rw [accepted]
    constructor
    · constructor
      · rintro ⟨fault, failed⟩
        cases failed
      · exact absurd distinct
    · intro fault failed
      cases failed
  · rw [refused]
    constructor
    · exact ⟨fun _ => first.not_nodup, fun _ => ⟨_, rfl⟩⟩
    · intro fault failed
      cases failed
      exact ⟨item, first, rfl⟩

theorem RefusesRepeated.nodup {β : Type} {result : β}
    (refuses : RefusesRepeated name span items (.ok result)) : (items.map name).Nodup := by
  by_contra again
  obtain ⟨fault, refused⟩ := refuses.1.mpr again
  cases refused

end Repeated

namespace Layout

theorem getElem?_place (start : Nat) (declarations : List InputDeclaration) (index : Nat) :
    (place start declarations)[index]? = declarations[index]?.map fun declaration =>
      ⟨declaration.name, start + ((declarations.take index).map InputDeclaration.width).sum,
        declaration.width⟩ := by
  induction declarations generalizing start index with
  | nil => rfl
  | cons declaration declarations ih =>
    cases index with
    | zero => rfl
    | succ index =>
      rw [place, List.getElem?_cons_succ, List.getElem?_cons_succ, ih, List.take_succ_cons,
        List.map_cons, List.sum_cons]
      simp only [Nat.add_assoc]

theorem totalBits_place (start : Nat) (declarations : List InputDeclaration) :
    totalBits ⟨place start declarations⟩ = (declarations.map InputDeclaration.width).sum := by
  induction declarations generalizing start with
  | nil => rfl
  | cons declaration declarations ih =>
    rw [List.map_cons, List.sum_cons, ← ih (start + declaration.width)]
    rfl

/-- The bits of the fields, one field behind the other, are all the bits in order. -/
theorem bits_place (start : Nat) (declarations : List InputDeclaration) :
    (place start declarations).flatMap Field.bits =
      List.range' start (declarations.map InputDeclaration.width).sum := by
  induction declarations generalizing start with
  | nil => rfl
  | cons declaration declarations ih =>
    rw [place, List.flatMap_cons, ih, List.map_cons, List.sum_cons, ← List.range'_append, Nat.one_mul]
    rfl

variable {layout : Layout}

theorem eq_of_mem_bits (distinct : (layout.fields.flatMap Field.bits).Nodup) {first second : Field}
    {bit : Nat} (listed : first ∈ layout.fields) (inFirst : bit ∈ first.bits)
    (other : second ∈ layout.fields) (inSecond : bit ∈ second.bits) : first = second := by
  have apart := (List.nodup_flatMap.mp distinct).2
  have symmetric : Std.Symm (Function.onFun List.Disjoint Field.bits) :=
    ⟨fun _ _ disjoint => disjoint.symm⟩
  by_contra differ
  exact apart.forall listed other differ inFirst inSecond

theorem find?_of_mem (distinct : (layout.fields.map Field.name).Nodup) {field : Field}
    (listed : field ∈ layout.fields) : layout.find? field.name = some field := by
  cases found : layout.find? field.name with
  | none =>
    have none := List.find?_eq_none.mp found field listed
    simp at none
  | some other =>
    have same : other.name = field.name := by simpa using List.find?_some found
    have member : other ∈ layout.fields := List.mem_of_find?_eq_some found
    rw [List.inj_on_of_nodup_map distinct member listed same]

theorem find?_eq_none_of_not_mem {name : Text} (unknown : name ∉ layout.fields.map Field.name) :
    layout.find? name = none := by
  rw [find?, List.find?_eq_none]
  intro field listed same
  apply unknown
  rw [← show field.name = name by simpa using same]
  exact List.mem_map_of_mem listed

/-- The declarations in order as fields, which share out the bits from 0 on and are found by their
names. -/
structure Numbers (declarations : List InputDeclaration) (layout : Layout) : Prop where
  fields : ∀ index : Nat, layout.fields[index]? = declarations[index]?.map fun declaration =>
    ⟨declaration.name, ((declarations.take index).map InputDeclaration.width).sum,
      declaration.width⟩
  total : layout.totalBits = (declarations.map InputDeclaration.width).sum
  covered : ∀ bit < layout.totalBits, ∃! field, field ∈ layout.fields ∧ bit ∈ field.bits
  inside : ∀ field ∈ layout.fields, ∀ bit ∈ field.bits, bit < layout.totalBits
  found : ∀ field ∈ layout.fields, layout.find? field.name = some field
  unknown : ∀ name, name ∉ layout.fields.map Field.name → layout.find? name = none

theorem refusesRepeated_ofDeclarations (declarations : List InputDeclaration) :
    RefusesRepeated InputDeclaration.name InputDeclaration.span declarations
      (ofDeclarations declarations) :=
  refusesRepeated_distinctNames _ _ _ _

theorem numbers_of_ofDeclarations {declarations : List InputDeclaration}
    (accepted : ofDeclarations declarations = .ok layout) : layout.Numbers declarations := by
  have refuses := refusesRepeated_ofDeclarations declarations
  rw [accepted] at refuses
  obtain ⟨_, -, rfl⟩ := map_eq_ok_iff.mp accepted
  have bits : (place 0 declarations).flatMap Field.bits =
      List.range' 0 (totalBits ⟨place 0 declarations⟩) := by
    rw [bits_place, totalBits_place]
  have names : ((place 0 declarations).map Field.name).Nodup := by
    rw [names_place]
    exact refuses.nodup
  refine ⟨?_, totalBits_place 0 declarations, ?_, ?_, ?_, ?_⟩
  · intro index
    rw [getElem?_place]
    simp only [Nat.zero_add]
  · intro bit low
    have member : bit ∈ (place 0 declarations).flatMap Field.bits := by
      rw [bits, List.mem_range'_1]
      omega
    obtain ⟨field, listed, inField⟩ := List.mem_flatMap.mp member
    refine ⟨field, ⟨listed, inField⟩, ?_⟩
    rintro other ⟨alsoListed, inOther⟩
    exact @eq_of_mem_bits ⟨place 0 declarations⟩ (bits ▸ List.nodup_range' 1) _ _ _ alsoListed inOther
      listed inField
  · intro field listed bit inField
    have member : bit ∈ (place 0 declarations).flatMap Field.bits :=
      List.mem_flatMap.mpr ⟨field, listed, inField⟩
    rw [bits, List.mem_range'_1] at member
    omega
  · intro field listed
    exact find?_of_mem names listed
  · intro name unknown
    exact find?_eq_none_of_not_mem unknown

end Layout

namespace Output

def ofDeclarations (declarations : List OutputDeclaration) : Except SourceFault (List Output) :=
  (distinctNames (declarations.map fun declaration => (declaration.name, declaration.span))).map
    fun _ => declarations.map fun declaration => { name := declaration.name }

theorem refusesRepeated_outputs (declarations : List OutputDeclaration) :
    RefusesRepeated OutputDeclaration.name OutputDeclaration.span declarations
      (ofDeclarations declarations) :=
  refusesRepeated_distinctNames _ _ _ _

theorem outputBit?_of_nodup {table : DecisionTable} (distinct : (table.outputs.map Output.name).Nodup)
    {bit : Nat} {output : Output} (placed : table.outputs[bit]? = some output) :
    table.outputBit? output.name = some bit := by
  obtain ⟨inside, same⟩ := List.getElem?_eq_some_iff.mp placed
  rw [DecisionTable.outputBit?, List.findIdx?_eq_some_iff_getElem]
  refine ⟨inside, by simp [same], ?_⟩
  intro earlier before named
  have longer : bit < (table.outputs.map Output.name).length := by
    rw [List.length_map]
    exact inside
  have shorter : earlier < (table.outputs.map Output.name).length := by omega
  have again : (table.outputs.map Output.name)[earlier] = (table.outputs.map Output.name)[bit] := by
    simpa [same] using named
  have equal := distinct.getElem_inj_iff.mp again
  omega

/-- The declarations in order as undecided outputs, each found at its place. -/
structure Numbers (declarations : List OutputDeclaration) (outputs : List Output) : Prop where
  placed : ∀ bit : Nat,
    outputs[bit]? = declarations[bit]?.map fun declaration => { name := declaration.name }
  found : ∀ (layout : Layout) (bit : Nat) (output : Output), outputs[bit]? = some output →
    DecisionTable.outputBit? ⟨layout, outputs⟩ output.name = some bit

theorem numbers_of_outputs {declarations : List OutputDeclaration} {outputs : List Output}
    (accepted : ofDeclarations declarations = .ok outputs) : Numbers declarations outputs := by
  have refuses := refusesRepeated_outputs declarations
  rw [accepted] at refuses
  obtain ⟨_, -, rfl⟩ := map_eq_ok_iff.mp accepted
  constructor
  · intro bit
    exact List.getElem?_map
  · intro layout bit output placed
    apply outputBit?_of_nodup _ placed
    rw [List.map_map]
    exact refuses.nodup

end Output

theorem DecisionTable.ofUnit_eq_outputs (unit : DesignUnit) :
    ofUnit unit =
      ((Layout.ofDeclarations unit.inputs).mapError .source).bind fun layout =>
        ((Output.ofDeclarations unit.outputs).mapError .source).bind fun undecided =>
          (assignAll layout undecided unit.statements).map fun outputs => ⟨layout, outputs⟩ := by
  rw [ofUnit_eq]
  cases Layout.ofDeclarations unit.inputs with
  | error fault => rfl
  | ok layout =>
    rw [Output.ofDeclarations]
    cases distinctNames (unit.outputs.map fun output => (output.name, output.span)) <;> rfl

theorem DecisionTable.outputBit?_of_ofUnit {unit : DesignUnit} {table : DecisionTable}
    (accepted : ofUnit unit = .ok table) {bit : Nat} {declaration : OutputDeclaration}
    (placed : unit.outputs[bit]? = some declaration) :
    table.outputBit? declaration.name = some bit := by
  have names := names_ofUnit accepted
  have distinct : (unit.outputs.map OutputDeclaration.name).Nodup := by
    have refuses := Output.refusesRepeated_outputs unit.outputs
    obtain ⟨_, -, distinct, -⟩ := ofUnit_eq_ok_iff.mp accepted
    rw [Output.ofDeclarations, distinct] at refuses
    exact refuses.nodup
  have named : table.outputs[bit]?.map Output.name = some declaration.name := by
    rw [← List.getElem?_map, names, List.getElem?_map, placed]
    rfl
  obtain ⟨output, found, same⟩ := Option.map_eq_some_iff.mp named
  rw [← same]
  exact Output.outputBit?_of_nodup (names ▸ distinct) found

/-- Declarations are refused for a repeated name only. The others get consecutive bits in order:
each input as many as it is wide, each output one. -/
theorem declarations_number_bits (unit : DesignUnit) :
    RefusesRepeated InputDeclaration.name InputDeclaration.span unit.inputs
        (Layout.ofDeclarations unit.inputs) ∧
      (∀ layout, Layout.ofDeclarations unit.inputs = .ok layout → layout.Numbers unit.inputs) ∧
      RefusesRepeated OutputDeclaration.name OutputDeclaration.span unit.outputs
        (Output.ofDeclarations unit.outputs) ∧
      (∀ outputs, Output.ofDeclarations unit.outputs = .ok outputs →
        Output.Numbers unit.outputs outputs) ∧
      (DecisionTable.ofUnit unit =
        ((Layout.ofDeclarations unit.inputs).mapError .source).bind fun layout =>
          ((Output.ofDeclarations unit.outputs).mapError .source).bind fun undecided =>
            (DecisionTable.assignAll layout undecided unit.statements).map fun outputs =>
              ⟨layout, outputs⟩) ∧
      ∀ table, DecisionTable.ofUnit unit = .ok table → ∀ (bit : Nat) declaration,
        unit.outputs[bit]? = some declaration → table.outputBit? declaration.name = some bit := by
  refine ⟨Layout.refusesRepeated_ofDeclarations _, ?_, Output.refusesRepeated_outputs _, ?_,
    DecisionTable.ofUnit_eq_outputs unit, ?_⟩
  · intro layout accepted
    exact Layout.numbers_of_ofDeclarations accepted
  · intro outputs accepted
    exact Output.numbers_of_outputs accepted
  · intro table accepted bit declaration placed
    exact DecisionTable.outputBit?_of_ofUnit accepted placed

def gapUnit : DesignUnit where
  inputs := [⟨['a'], 2, ⟨0, 1⟩⟩, ⟨['b'], 0, ⟨2, 3⟩⟩, ⟨['c'], 3, ⟨4, 5⟩⟩]
  outputs := [⟨['x'], ⟨6, 7⟩⟩, ⟨['y'], ⟨8, 9⟩⟩, ⟨['x'], ⟨10, 11⟩⟩]

theorem gapUnit_numbered :
    (∃! field, field ∈ [(⟨['a'], 0, 2⟩ : Field), ⟨['b'], 2, 0⟩, ⟨['c'], 2, 3⟩] ∧ 2 ∈ field.bits) ∧
      ∃ fault, Output.ofDeclarations gapUnit.outputs = .error fault := by
  obtain ⟨-, numbered, refused, -⟩ := declarations_number_bits gapUnit
  refine ⟨(numbered ⟨_⟩ rfl).covered 2 (by decide), refused.1.mpr (by decide)⟩

end TriggerLogic
