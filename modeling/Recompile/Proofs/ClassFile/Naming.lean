import Recompile.Proofs.ClassFile.Content
import Recompile.Proofs.Surface.Collecting

/-!
# What a class file names

Declarations name the types of the header, the fields and the methods of a
class. The pool names classes, and the types of the descriptors in it. What is
read of a member or of an entry tells the types that are named there.
-/

namespace Recompile
namespace ClassFile

/-!
# What is named
-/

def Constant.descriptor? : Constant → Option UInt16
  | nameAndType descriptor => some descriptor
  | methodType descriptor => some descriptor
  | _ => none

inductive Pool.Mentions (pool : Pool) : Constant → JavaType → Prop where
  | ofClass {index : UInt16} {text : String} (htext : pool.text index = .ok text)
      (hplain : text.toList.head? ≠ some '[') :
      Mentions pool (.classEntry index) (.object (.ofInternal text))
  | ofArray {index : UInt16} {text : String} {type : JavaType}
      (htext : pool.text index = .ok text) (harray : text.toList.head? = some '[')
      (htype : JavaType.ofField text = .ok type) : Mentions pool (.classEntry index) type
  | ofField {constant : Constant} {index : UInt16} {text : String} {type : JavaType}
      (hindex : constant.descriptor? = some index) (htext : pool.text index = .ok text)
      (htype : JavaType.ofField text = .ok type) : Mentions pool constant type
  | ofMethod {constant : Constant} {index : UInt16} {text : String} {descriptor : MethodType}
      {type : JavaType} (hindex : constant.descriptor? = some index)
      (htext : pool.text index = .ok text) (hdescriptor : MethodType.ofText text = .ok descriptor)
      (htype : type ∈ descriptor.types) : Mentions pool constant type

def Lists (data : Bytes) (indexes : List UInt16) : Prop :=
  indexes.length < 2 ^ 16 ∧ ∃ rest, data = Decoder.writtenList Entry.short indexes ++ rest

def Pool.classAt (pool : Pool) (index : UInt16) : Except Fault ClassName :=
  (pool.className index).map ClassName.ofInternal

inductive Layout.Declares (layout : Layout) : Modifiers → JavaType → Prop where
  | superclass {name : ClassName} (h : layout.superClass ≠ 0)
      (hname : layout.pool.classAt layout.superClass = .ok name) :
      Declares layout layout.flags (.object name)
  | interface {index : UInt16} {name : ClassName} (hindex : index ∈ layout.interfaces)
      (hname : layout.pool.classAt index = .ok name) :
      Declares layout layout.flags (.object name)
  | field {member : Member} {text : String} {type : JavaType} (hmember : member ∈ layout.fields)
      (htext : layout.pool.text member.descriptor = .ok text)
      (htype : JavaType.ofField text = .ok type) : Declares layout member.flags type
  | method {member : Member} {text : String} {descriptor : MethodType} {type : JavaType}
      (hmember : member ∈ layout.methods) (htext : layout.pool.text member.descriptor = .ok text)
      (hdescriptor : MethodType.ofText text = .ok descriptor) (htype : type ∈ descriptor.types) :
      Declares layout member.flags type
  | thrown {member : Member} {data : Bytes} {indexes : List UInt16} {index : UInt16}
      {name : ClassName} (hmember : member ∈ layout.methods)
      (hdata : layout.attribute? member.attributes "Exceptions" = some data)
      (hindexes : Lists data indexes) (hindex : index ∈ indexes)
      (hname : layout.pool.classAt index = .ok name) :
      Declares layout member.flags (.object name)

def Layout.Refers (layout : Layout) : Occurrence → Prop
  | .declared owner type => layout.Declares owner type
  | .mentioned type => ∃ constant ∈ layout.pool.entries.toList, layout.pool.Mentions constant type

/-- Whether types can be read wherever they stand. -/
structure Layout.Legible (layout : Layout) : Prop where
  superClass : layout.superClass ≠ 0 → ∃ name, layout.pool.classAt layout.superClass = .ok name
  interfaces : ∀ index ∈ layout.interfaces, ∃ name, layout.pool.classAt index = .ok name
  fields : ∀ member ∈ layout.fields, ∃ text type,
    layout.pool.text member.descriptor = .ok text ∧ JavaType.ofField text = .ok type
  methods : ∀ member ∈ layout.methods, ∃ text descriptor,
    layout.pool.text member.descriptor = .ok text ∧ MethodType.ofText text = .ok descriptor
  exceptions : ∀ member ∈ layout.methods, ∀ data,
    layout.attribute? member.attributes "Exceptions" = some data →
      ∃ indexes, Lists data indexes ∧
        ∀ index ∈ indexes, ∃ name, layout.pool.classAt index = .ok name
  classEntries : ∀ index, .classEntry index ∈ layout.pool.entries.toList →
    ∃ type, layout.pool.Mentions (.classEntry index) type
  descriptors : ∀ constant ∈ layout.pool.entries.toList, ∀ index,
    constant.descriptor? = some index → ∃ type, layout.pool.Mentions constant type

/-!
# Answers of the pool
-/

variable {pool : Pool} {layout : Layout}

theorem describe_eq_ok {α : Type} {answer : Except BadDescriptor α} {value : α} :
    describe answer = .ok value ↔ answer = .ok value := by
  cases answer <;> simp [describe]

theorem head?_ne_of_ofField {text : String} {type : JavaType}
    (h : JavaType.ofField text = .ok type) : text.toList.head? ≠ some '(' := by
  intro hhead
  cases htext : text.toList with
  | nil =>
      rw [htext] at hhead
      cases hhead
  | cons c rest =>
      rw [htext] at hhead
      cases hhead
      have hread : JavaType.read false ('(' :: rest) = none := rfl
      unfold JavaType.ofField at h
      rw [htext, hread] at h
      cases h

theorem head?_of_ofText {text : String} {descriptor : MethodType}
    (h : MethodType.ofText text = .ok descriptor) : text.toList.head? = some '(' := by
  unfold MethodType.ofText at h
  split at h
  next hsplit => rw [hsplit]; rfl
  next => cases h

theorem ofPoolName_eq_ok {text : String} {type : JavaType}
    (h : JavaType.ofPoolName text = .ok type) :
    (text.toList.head? = some '[' ∧ JavaType.ofField text = .ok type) ∨
      (text.toList.head? ≠ some '[' ∧ type = .object (.ofInternal text)) := by
  unfold JavaType.ofPoolName at h
  split at h
  next harray => exact Or.inl ⟨harray, h⟩
  next hplain =>
      split at h
      · cases h
      · cases h
        exact Or.inr ⟨hplain, rfl⟩

theorem mentions_classEntry_iff {index : UInt16} {text : String} {type : JavaType}
    (htext : pool.text index = .ok text) :
    pool.Mentions (.classEntry index) type ↔
      (text.toList.head? = some '[' ∧ JavaType.ofField text = .ok type) ∨
        (text.toList.head? ≠ some '[' ∧ type = .object (.ofInternal text)) := by
  constructor
  · intro h
    cases h with
    | ofClass htext' hplain =>
        cases htext.symm.trans htext'
        exact Or.inr ⟨hplain, rfl⟩
    | ofArray htext' harray htype =>
        cases htext.symm.trans htext'
        exact Or.inl ⟨harray, htype⟩
    | ofField hindex => cases hindex
    | ofMethod hindex => cases hindex
  · rintro (⟨harray, htype⟩ | ⟨hplain, rfl⟩)
    · exact .ofArray htext harray htype
    · exact .ofClass htext hplain

theorem mentions_descriptor_iff {constant : Constant} {index : UInt16} {text : String}
    {type : JavaType} (hindex : constant.descriptor? = some index)
    (htext : pool.text index = .ok text) :
    pool.Mentions constant type ↔
      JavaType.ofField text = .ok type ∨
        ∃ descriptor, MethodType.ofText text = .ok descriptor ∧ type ∈ descriptor.types := by
  constructor
  · intro h
    cases h with
    | ofClass => cases hindex
    | ofArray => cases hindex
    | ofField hindex' htext' htype =>
        cases hindex.symm.trans hindex'
        cases htext.symm.trans htext'
        exact Or.inl htype
    | ofMethod hindex' htext' hdescriptor htype =>
        cases hindex.symm.trans hindex'
        cases htext.symm.trans htext'
        exact Or.inr ⟨_, hdescriptor, htype⟩
  · rintro (htype | ⟨descriptor, hdescriptor, htype⟩)
    · exact .ofField hindex htext htype
    · exact .ofMethod hindex htext hdescriptor htype

theorem mem_mentionedTypes_classEntry {index : UInt16} {types : List JavaType}
    (h : mentionedTypes pool (.classEntry index) = .ok types) :
    types ≠ [] ∧ ∀ type, type ∈ types ↔ pool.Mentions (.classEntry index) type := by
  rcases bind_eq_ok.mp h with ⟨text, htext, h⟩
  rcases bind_eq_ok.mp h with ⟨found, hfound, h⟩
  cases h
  refine ⟨nofun, fun type => ?_⟩
  rw [mentions_classEntry_iff htext, List.mem_singleton]
  rcases ofPoolName_eq_ok (describe_eq_ok.mp hfound) with ⟨harray, htype⟩ | ⟨hplain, rfl⟩
  · simp [harray, htype, eq_comm]
  · simp [hplain]

theorem mem_mentionedTypes_descriptor {constant : Constant} {index : UInt16}
    {types : List JavaType} (hindex : constant.descriptor? = some index)
    (h : mentionedTypes pool constant = .ok types) :
    types ≠ [] ∧ ∀ type, type ∈ types ↔ pool.Mentions constant type := by
  have hbody : mentionedTypes pool constant = (do
      let text ← pool.text index
      if text.toList.head? = some '(' then
        return (← describe (MethodType.ofText text)).types
      else return [← describe (JavaType.ofField text)]) := by
    cases constant <;> cases hindex <;> rfl
  rw [hbody] at h
  rcases bind_eq_ok.mp h with ⟨text, htext, h⟩
  simp only [mentions_descriptor_iff hindex htext]
  split at h
  next hmethod =>
      rcases bind_eq_ok.mp h with ⟨descriptor, hdescriptor, h⟩
      cases h
      have hfield : ∀ type, JavaType.ofField text ≠ .ok type :=
        fun type htype => head?_ne_of_ofField htype hmethod
      rw [describe_eq_ok] at hdescriptor
      constructor
      · exact List.append_ne_nil_of_right_ne_nil _ (List.cons_ne_nil _ _)
      · simp [hfield, hdescriptor]
  next hfield =>
      rcases bind_eq_ok.mp h with ⟨found, hfound, h⟩
      cases h
      have hmethod : ∀ descriptor, MethodType.ofText text ≠ .ok descriptor :=
        fun descriptor hdescriptor => hfield (head?_of_ofText hdescriptor)
      rw [describe_eq_ok] at hfound
      constructor
      · exact List.cons_ne_nil _ _
      · simp [hmethod, hfound, eq_comm]

theorem mem_mentionedTypes {constant : Constant} {types : List JavaType}
    (h : mentionedTypes pool constant = .ok types) (type : JavaType) :
    type ∈ types ↔ pool.Mentions constant type := by
  cases hindex : constant.descriptor? with
  | some index => exact (mem_mentionedTypes_descriptor hindex h).2 type
  | none =>
      cases constant with
      | classEntry index => exact (mem_mentionedTypes_classEntry h).2 type
      | nameAndType => cases hindex
      | methodType => cases hindex
      | _ =>
          cases h
          constructor
          · exact nofun
          · intro hmentions
            cases hmentions with
            | ofField hindex => cases hindex
            | ofMethod hindex => cases hindex

/-!
# What is read of declarations
-/

theorem lists_iff {data : Bytes} {indexes : List UInt16} :
    Lists data indexes ↔ (Decoder.counted Decoder.u2).runOn data = .ok indexes := by
  rw [Decoder.reads_interfaces.runOn_eq_ok]
  constructor
  · rintro ⟨hlength, rest, hdata⟩
    exact ⟨_, rest, ⟨hlength, rfl⟩, hdata⟩
  · rintro ⟨_, rest, ⟨hlength, rfl⟩, hdata⟩
    exact ⟨hlength, rest, hdata⟩

theorem Lists.unique {data : Bytes} {indexes others : List UInt16} (h : Lists data indexes)
    (hothers : Lists data others) : indexes = others :=
  Except.ok.inj ((lists_iff.mp h).symm.trans (lists_iff.mp hothers))

theorem classAt_eq (pool : Pool) (index : UInt16) :
    (do return ClassName.ofInternal (← pool.className index)) = pool.classAt index := by
  unfold Pool.classAt
  cases pool.className index <;> rfl

theorem indexes_of_forall₂ {β : Type} {Answers : UInt16 → β → Prop} {parts : List Bytes}
    {values : List β}
    (h : List.Forall₂ (fun written value => ∃ index, written = Entry.short index ∧
      Answers index value) parts values) :
    ∃ indexes, parts.flatten = indexes.flatMap Entry.short ∧
      List.Forall₂ Answers indexes values := by
  induction h with
  | nil => exact ⟨[], rfl, .nil⟩
  | cons hfirst _ ih =>
      rcases hfirst with ⟨index, rfl, hvalue⟩
      rcases ih with ⟨indexes, hparts, hvalues⟩
      refine ⟨index :: indexes, ?_, .cons hvalue hvalues⟩
      rw [List.flatten_cons, hparts, List.flatMap_cons]

theorem of_readExceptions {data : Bytes} {names : List ClassName}
    (h : readExceptions pool data = .ok names) :
    ∃ indexes, Lists data indexes ∧
      List.Forall₂ (fun index name => pool.classAt index = .ok name) indexes names := by
  have hexception : Decoder.Reads
      (do
        let index ← Decoder.u2
        let name ← (pool.className index : Decoder String)
        return ClassName.ofInternal name)
      fun written name => ∃ index, written = Entry.short index ∧
        pool.classAt index = .ok name := by
    apply (Decoder.reads_u2.bind _ fun index =>
      (Decoder.reads_lift (pool.className index)).map ClassName.ofInternal).congr
    intro written name
    simp only [← classAt_eq, bind_eq_ok]
    constructor
    · rintro ⟨index, _, _, rfl, ⟨text, ⟨rfl, htext⟩, rfl⟩, rfl⟩
      exact ⟨index, List.append_nil _, text, htext, rfl⟩
    · rintro ⟨index, rfl, text, htext, hname⟩
      cases hname
      exact ⟨index, _, [], rfl, ⟨text, ⟨rfl, htext⟩, rfl⟩, (List.append_nil _).symm⟩
  rcases hexception.counted.runOn_eq_ok.mp h with ⟨_, rest, ⟨parts, hparts, hlength, rfl⟩, hdata⟩
  rcases indexes_of_forall₂ hparts with ⟨indexes, hflatten, hnames⟩
  refine ⟨indexes, ⟨?_, rest, ?_⟩, hnames⟩
  · rw [hnames.length_eq]
    exact hlength
  · rw [hdata, hflatten, Decoder.writtenList, hnames.length_eq]

theorem of_readField {member : Member} {field : FieldDecl × Option SharedConstant}
    (h : readField layout member = .ok field) :
    field.1.flags = member.flags ∧ ∃ text, layout.pool.text member.descriptor = .ok text ∧
      JavaType.ofField text = .ok field.1.type := by
  unfold readField at h
  rcases bind_eq_ok.mp h with ⟨name, _, h⟩
  rcases bind_eq_ok.mp h with ⟨text, htext, h⟩
  rcases bind_eq_ok.mp h with ⟨type, htype, h⟩
  have hfield : field.1 = ⟨member.flags, name, type⟩ := by
    split at h
    · split at h
      · cases h
        rfl
      · rcases bind_eq_ok.mp h with ⟨_, _, h⟩
        rcases bind_eq_ok.mp h with ⟨_, _, h⟩
        cases h
        rfl
    · cases h
      rfl
  rw [hfield]
  exact ⟨rfl, text, htext, describe_eq_ok.mp htype⟩

theorem of_readMethod {member : Member} {method : MethodDecl}
    (h : readMethod layout member = .ok method) :
    method.flags = member.flags ∧
    (∃ text, layout.pool.text member.descriptor = .ok text ∧
      MethodType.ofText text = .ok ⟨method.signature.parameters, method.signature.result⟩) ∧
    (∀ data, layout.attribute? member.attributes "Exceptions" = some data →
      ∃ indexes, Lists data indexes ∧
        ∀ index ∈ indexes, ∃ name, layout.pool.classAt index = .ok name) ∧
    ∀ name, name ∈ method.exceptions ↔
      ∃ data indexes index, layout.attribute? member.attributes "Exceptions" = some data ∧
        Lists data indexes ∧ index ∈ indexes ∧ layout.pool.classAt index = .ok name := by
  unfold readMethod at h
  rcases bind_eq_ok.mp h with ⟨name, _, h⟩
  rcases bind_eq_ok.mp h with ⟨text, htext, h⟩
  rcases bind_eq_ok.mp h with ⟨descriptor, hdescriptor, h⟩
  rw [describe_eq_ok] at hdescriptor
  cases hattribute : layout.attribute? member.attributes "Exceptions" with
  | none =>
      rw [hattribute] at h
      cases h
      exact ⟨rfl, ⟨text, htext, hdescriptor⟩, nofun, by simp⟩
  | some data =>
      rw [hattribute] at h
      rcases bind_eq_ok.mp h with ⟨names, hnames, h⟩
      cases h
      rcases of_readExceptions hnames with ⟨indexes, hlists, hanswers⟩
      rcases members_of_forall₂ hanswers with ⟨hnamed, hindexed⟩
      refine ⟨rfl, ⟨text, htext, hdescriptor⟩, ?_, ?_⟩
      · rintro _ ⟨⟩
        refine ⟨indexes, hlists, ?_⟩
        intro index hindex
        rcases hnamed index hindex with ⟨found, _, hfound⟩
        exact ⟨found, hfound⟩
      · intro thrown
        rw [Std.ExtTreeSet.mem_ofList, List.contains_iff_mem]
        constructor
        · intro hthrown
          rcases hindexed thrown hthrown with ⟨index, hindex, hfound⟩
          exact ⟨data, indexes, index, rfl, hlists, hindex, hfound⟩
        · rintro ⟨_, others, index, ⟨⟩, hothers, hindex, hfound⟩
          rw [hothers.unique hlists] at hindex
          rcases hnamed index hindex with ⟨other, hother, hsame⟩
          cases hfound.symm.trans hsame
          exact hother

end ClassFile
end Recompile
