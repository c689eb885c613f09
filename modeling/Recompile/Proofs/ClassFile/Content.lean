import Recompile.ClassFile.Layout
import Recompile.Proofs.ClassFile.Entries

/-!
# What a class file holds

A class file written out in full: every entry of the pool with all that it
says, and the flags, names, members and attributes behind it. A byte string
is read if and only if it is such a file, and what is read is what was written,
as far as it is kept.
-/

namespace Recompile
namespace ClassFile

/-!
# Members and attributes
-/

def Attribute.bytes (item : Attribute) : Bytes :=
  Entry.short item.name ++ Bytes.ofNat 4 item.data.length ++ item.data

def Attribute.Fits (item : Attribute) : Prop :=
  item.data.length < 2 ^ 32

instance : DecidablePred Attribute.Fits :=
  fun item => inferInstanceAs (Decidable (item.data.length < 2 ^ 32))

def Member.bytes (member : Member) : Bytes :=
  Entry.short member.flags.bits ++ Entry.short member.name ++ Entry.short member.descriptor ++
    Decoder.writtenList Attribute.bytes member.attributes

def Member.Fits (member : Member) : Prop :=
  member.attributes.length < 2 ^ 16 ∧ ∀ item ∈ member.attributes, item.Fits

instance : DecidablePred Member.Fits :=
  fun _ => inferInstanceAs (Decidable (_ ∧ _))

namespace Decoder

theorem reads_readAttribute :
    Reads readAttribute fun written item =>
      item.Fits ∧ written = item.bytes := by
  apply (reads_u2.bind _ fun name => reads_u4.bind _ fun length =>
    (reads_take length.toNat).map fun data => Attribute.mk name data).congr
  intro written item
  constructor
  · rintro ⟨name, _, _, rfl, ⟨length, _, _, rfl, ⟨data, ⟨rfl, hlength⟩, rfl⟩, rfl⟩, rfl⟩
    have hfits : data.length < 2 ^ 32 := by
      rw [hlength]
      exact length.toNat_lt
    refine ⟨hfits, ?_⟩
    rw [Attribute.bytes, List.append_assoc, hlength]
    rfl
  · rintro ⟨hfits, rfl⟩
    have hlength := UInt32.toNat_ofNat_of_lt' hfits
    refine ⟨item.name, _, _, rfl,
      ⟨UInt32.ofNat item.data.length, _, _, rfl, ⟨_, ⟨rfl, hlength.symm⟩, rfl⟩, rfl⟩, ?_⟩
    rw [Attribute.bytes, List.append_assoc, hlength]
    rfl

theorem reads_readMember :
    Reads readMember fun written member => member.Fits ∧ written = member.bytes := by
  apply (reads_u2.bind _ fun flags => reads_u2.bind _ fun name => reads_u2.bind _ fun descriptor =>
    reads_readAttribute.counted_written.map
      fun attributes => Member.mk ⟨flags⟩ name descriptor attributes).congr
  intro written member
  constructor
  · rintro ⟨flags, _, _, rfl, ⟨name, _, _, rfl, ⟨descriptor, _, _, rfl,
      ⟨attributes, ⟨hfits, rfl⟩, rfl⟩, rfl⟩, rfl⟩, rfl⟩
    refine ⟨hfits, ?_⟩
    simp only [Member.bytes, Entry.short, List.append_assoc]
  · rintro ⟨hfits, rfl⟩
    refine ⟨member.flags.bits, _, _, rfl, ⟨member.name, _, _, rfl, ⟨member.descriptor, _, _, rfl,
      ⟨member.attributes, ⟨hfits, rfl⟩, rfl⟩, rfl⟩, rfl⟩, ?_⟩
    simp only [Member.bytes, Entry.short, List.append_assoc]

end Decoder

/-!
# Class files
-/

structure Content where
  version : FormatVersion
  count : UInt16
  entries : List Entry
  flags : Modifiers
  thisClass : UInt16
  superClass : UInt16
  interfaces : List UInt16
  fields : List Member
  methods : List Member
  attributes : List Attribute

namespace Content

def bytes (content : Content) : Bytes :=
  [Bytes.ofNat 4 magic.toNat,
    Entry.short content.version.minor,
    Entry.short content.version.major,
    Entry.short content.count ++ content.entries.flatMap Entry.bytes,
    Entry.short content.flags.bits,
    Entry.short content.thisClass,
    Entry.short content.superClass,
    Decoder.writtenList Entry.short content.interfaces,
    Decoder.writtenList Member.bytes content.fields,
    Decoder.writtenList Member.bytes content.methods,
    Decoder.writtenList Attribute.bytes content.attributes].flatten

structure Fits (content : Content) : Prop where
  entries : ∀ entry ∈ content.entries, entry.Fits
  indices : widthOf content.entries = content.count.toNat - 1
  interfaces : content.interfaces.length < 2 ^ 16
  fields : content.fields.length < 2 ^ 16 ∧ ∀ field ∈ content.fields, field.Fits
  methods : content.methods.length < 2 ^ 16 ∧ ∀ method ∈ content.methods, method.Fits
  attributes : content.attributes.length < 2 ^ 16 ∧
    ∀ item ∈ content.attributes, item.Fits

instance : DecidablePred Fits := fun content =>
  decidable_of_iff
    ((∀ entry ∈ content.entries, entry.Fits) ∧
      widthOf content.entries = content.count.toNat - 1 ∧
      content.interfaces.length < 2 ^ 16 ∧
      (content.fields.length < 2 ^ 16 ∧ ∀ field ∈ content.fields, field.Fits) ∧
      (content.methods.length < 2 ^ 16 ∧ ∀ method ∈ content.methods, method.Fits) ∧
      content.attributes.length < 2 ^ 16 ∧ ∀ item ∈ content.attributes, item.Fits)
    ⟨fun ⟨h₁, h₂, h₃, h₄, h₅, h₆⟩ => ⟨h₁, h₂, h₃, h₄, h₅, h₆⟩,
      fun ⟨h₁, h₂, h₃, h₄, h₅, h₆⟩ => ⟨h₁, h₂, h₃, h₄, h₅, h₆⟩⟩

def layout (content : Content) : Layout where
  version := content.version
  pool := ⟨#[.unusable] ++ (slotsOf content.entries).toArray⟩
  flags := content.flags
  thisClass := content.thisClass
  superClass := content.superClass
  interfaces := content.interfaces
  fields := content.fields
  methods := content.methods
  attributes := content.attributes

end Content

namespace Decoder

theorem reads_interfaces :
    Reads (counted u2) fun written interfaces =>
      interfaces.length < 2 ^ 16 ∧ written = writtenList Entry.short interfaces := by
  have hread : Reads u2 fun written value => True ∧ written = Entry.short value :=
    reads_u2.congr fun _ _ => ⟨fun h => ⟨trivial, h⟩, And.right⟩
  apply hread.counted_written.congr
  simp

theorem reads_members :
    Reads (counted readMember) fun written members =>
      (members.length < 2 ^ 16 ∧ ∀ member ∈ members, member.Fits) ∧
        written = writtenList Member.bytes members :=
  reads_readMember.counted_written

theorem reads_attributes :
    Reads (counted readAttribute) fun written attributes =>
      (attributes.length < 2 ^ 16 ∧ ∀ item ∈ attributes, item.Fits) ∧
        written = writtenList Attribute.bytes attributes :=
  reads_readAttribute.counted_written

end Decoder

theorem content_of_readLayout {bytes : Bytes} {layout : Layout} {left : Cursor}
    (h : readLayout ⟨0, bytes⟩ = .ok (layout, left)) :
    ∃ content : Content, content.Fits ∧ content.bytes = bytes ∧ content.layout = layout := by
  rcases Decoder.reads_u4.bind_mk_eq_ok.mp h with ⟨found, _, _, rfl, hfound, h⟩
  by_cases hmagic : found = magic
  · rw [if_neg (not_not_intro hmagic)] at h
    rcases Decoder.reads_u2.bind_mk_eq_ok.mp h with ⟨minor, _, _, rfl, hminor, h⟩
    rcases Decoder.reads_u2.bind_mk_eq_ok.mp h with ⟨major, _, _, rfl, hmajor, h⟩
    rcases Decoder.reads_readPool.bind_mk_eq_ok.mp h with
      ⟨_, _, _, ⟨count, entries, hentries, hindices, rfl, rfl⟩, hpool, h⟩
    rcases Decoder.reads_u2.bind_mk_eq_ok.mp h with ⟨flags, _, _, rfl, hflags, h⟩
    rcases Decoder.reads_u2.bind_mk_eq_ok.mp h with ⟨thisClass, _, _, rfl, hthis, h⟩
    rcases Decoder.reads_u2.bind_mk_eq_ok.mp h with ⟨superClass, _, _, rfl, hsuper, h⟩
    rcases Decoder.reads_interfaces.bind_mk_eq_ok.mp h with
      ⟨interfaces, _, _, ⟨hinterfaces, rfl⟩, hbehind, h⟩
    rcases Decoder.reads_members.bind_mk_eq_ok.mp h with
      ⟨fields, _, _, ⟨hfields, rfl⟩, hbefore, h⟩
    rcases Decoder.reads_members.bind_mk_eq_ok.mp h with
      ⟨methods, _, _, ⟨hmethods, rfl⟩, hmiddle, h⟩
    rcases Decoder.reads_attributes.bind_mk_eq_ok.mp h with
      ⟨attributes, _, rest, ⟨hattributes, rfl⟩, hlast, h⟩
    cases rest with
    | cons _ _ => cases h
    | nil =>
        cases h
        refine ⟨⟨⟨major, minor⟩, count, entries, ⟨flags⟩, thisClass, superClass, interfaces, fields,
          methods, attributes⟩,
          ⟨hentries, hindices, hinterfaces, hfields, hmethods, hattributes⟩, ?_, rfl⟩
        rw [hfound, hminor, hmajor, hpool, hflags, hthis, hsuper, hbehind, hbefore, hmiddle, hlast,
          hmagic]
        rfl
  · rw [if_pos hmagic] at h
    cases h

theorem readLayout_bytes {content : Content} (h : content.Fits) :
    ∃ left, readLayout ⟨0, content.bytes⟩ = .ok (content.layout, left) := by
  apply Exists.intro
  refine Decoder.reads_u4.bind_mk_eq_ok.mpr ⟨magic, _, _, rfl, rfl, ?_⟩
  rw [if_neg (not_not_intro rfl)]
  refine Decoder.reads_u2.bind_mk_eq_ok.mpr ⟨content.version.minor, _, _, rfl, rfl, ?_⟩
  refine Decoder.reads_u2.bind_mk_eq_ok.mpr ⟨content.version.major, _, _, rfl, rfl, ?_⟩
  refine Decoder.reads_readPool.bind_mk_eq_ok.mpr
    ⟨content.layout.pool, _, _, ⟨content.count, _, h.entries, h.indices, rfl, rfl⟩, rfl, ?_⟩
  refine Decoder.reads_u2.bind_mk_eq_ok.mpr ⟨content.flags.bits, _, _, rfl, rfl, ?_⟩
  refine Decoder.reads_u2.bind_mk_eq_ok.mpr ⟨content.thisClass, _, _, rfl, rfl, ?_⟩
  refine Decoder.reads_u2.bind_mk_eq_ok.mpr ⟨content.superClass, _, _, rfl, rfl, ?_⟩
  refine Decoder.reads_interfaces.bind_mk_eq_ok.mpr
    ⟨content.interfaces, _, _, ⟨h.interfaces, rfl⟩, rfl, ?_⟩
  refine Decoder.reads_members.bind_mk_eq_ok.mpr ⟨content.fields, _, _, ⟨h.fields, rfl⟩, rfl, ?_⟩
  refine Decoder.reads_members.bind_mk_eq_ok.mpr
    ⟨content.methods, _, _, ⟨h.methods, rfl⟩, rfl, ?_⟩
  refine Decoder.reads_attributes.bind_mk_eq_ok.mpr
    ⟨content.attributes, _, [], ⟨h.attributes, rfl⟩, rfl, ?_⟩
  rfl

theorem ofBytes_eq_ok_iff {bytes : Bytes} {layout : Layout} :
    Layout.ofBytes bytes = .ok layout ↔
      ∃ content : Content, content.Fits ∧ content.bytes = bytes ∧ content.layout = layout := by
  unfold Layout.ofBytes
  rw [Decoder.runOn_eq_ok]
  constructor
  · rintro ⟨left, h⟩
    exact content_of_readLayout h
  · rintro ⟨content, hfits, rfl, rfl⟩
    exact readLayout_bytes hfits

/-!
# Where entries are found
-/

theorem slotsOf_append (entries more : List Entry) :
    slotsOf (entries ++ more) = slotsOf entries ++ slotsOf more :=
  List.flatMap_append

theorem getElem?_slotsOf (before after : List Entry) (entry : Entry) (k : Nat) :
    (slotsOf (before ++ entry :: after))[widthOf before + k]? =
      (entry.constant.slots ++ slotsOf after)[k]? := by
  rw [slotsOf_append, ← length_slotsOf, List.getElem?_append_right (Nat.le_add_right _ _),
    Nat.add_sub_cancel_left]
  rfl

theorem getElem?_pool (before after : List Entry) (entry : Entry) :
    (slotsOf (before ++ entry :: after))[widthOf before]? = some entry.constant ∧
      (entry.width = 2 →
        (slotsOf (before ++ entry :: after))[widthOf before + 1]? = some .unusable) := by
  constructor
  · rw [← Nat.add_zero (widthOf before), getElem?_slotsOf]
    cases entry <;> rfl
  · intro hwide
    rw [getElem?_slotsOf]
    cases entry <;> first | rfl | cases hwide

/-!
# What is kept

Two files are read as the same one if they agree in all but what is passed
over. What it is of a member that is referred to, and how often a call site is
linked, is told by the tag and passed over with the rest.
-/

/-- Whether two entries agree in what is kept of them. -/
inductive Entry.Alike : Entry → Entry → Prop where
  | same (entry : Entry) : Alike entry entry
  | text {raw other : Bytes} (h : ModifiedUtf8.decode? raw = ModifiedUtf8.decode? other) :
      Alike (.text raw) (.text other)
  | memberReference {entry other : Entry} (h : entry.tag ∈ [9, 10, 11])
      (hother : other.tag ∈ [9, 10, 11]) : Alike entry other
  | nameAndType (name other descriptor : UInt16) :
      Alike (.nameAndType name descriptor) (.nameAndType other descriptor)
  | methodHandle (kind kind' : UInt8) (reference reference' : UInt16) :
      Alike (.methodHandle kind reference) (.methodHandle kind' reference')
  | dynamic {entry other : Entry} (h : entry.tag ∈ [17, 18]) (hother : other.tag ∈ [17, 18]) :
      Alike entry other
  | moduleEntry (name other : UInt16) : Alike (.moduleEntry name) (.moduleEntry other)
  | packageEntry (name other : UInt16) : Alike (.packageEntry name) (.packageEntry other)

theorem Entry.tag_mem_iff_memberReference (entry : Entry) :
    entry.tag ∈ [9, 10, 11] ↔ entry.constant = .memberReference := by
  cases entry <;> simp [tag, constant]

theorem Entry.tag_mem_iff_dynamic (entry : Entry) :
    entry.tag ∈ [17, 18] ↔ entry.constant = .dynamic := by
  cases entry <;> simp [tag, constant]

theorem Entry.Alike.constant_eq {entry other : Entry} (h : entry.Alike other) :
    entry.constant = other.constant := by
  cases h with
  | text h => rw [constant, constant, h]
  | memberReference h hother =>
      rw [entry.tag_mem_iff_memberReference.mp h, other.tag_mem_iff_memberReference.mp hother]
  | dynamic h hother =>
      rw [entry.tag_mem_iff_dynamic.mp h, other.tag_mem_iff_dynamic.mp hother]
  | _ => rfl

theorem Entry.decode?_eq_of_constant_eq {raw other : Bytes} (hraw : (text raw).Fits)
    (hother : (text other).Fits) (h : (text raw).constant = (text other).constant) :
    ModifiedUtf8.decode? raw = ModifiedUtf8.decode? other := by
  rcases Option.isSome_iff_exists.mp hraw.2 with ⟨value, hvalue⟩
  rcases Option.isSome_iff_exists.mp hother.2 with ⟨value', hvalue'⟩
  rw [constant, constant, hvalue, hvalue', Option.getD_some, Option.getD_some,
    Constant.text.injEq, String.ofList_inj] at h
  rw [hvalue, hvalue', h]

theorem Entry.alike_of_constant_eq {entry other : Entry} (hentry : entry.Fits)
    (hother : other.Fits) (h : entry.constant = other.constant) : entry.Alike other := by
  cases entry with
  | text raw =>
      cases other with
      | text => exact .text (decode?_eq_of_constant_eq hentry hother h)
      | _ => cases h
  | field => exact .memberReference (by simp [tag]) (other.tag_mem_iff_memberReference.mpr h.symm)
  | method => exact .memberReference (by simp [tag]) (other.tag_mem_iff_memberReference.mpr h.symm)
  | interfaceMethod =>
      exact .memberReference (by simp [tag]) (other.tag_mem_iff_memberReference.mpr h.symm)
  | nameAndType =>
      cases other <;> cases h
      exact .nameAndType _ _ _
  | methodHandle =>
      cases other <;> cases h
      exact .methodHandle _ _ _ _
  | dynamic => exact .dynamic (by simp [tag]) (other.tag_mem_iff_dynamic.mpr h.symm)
  | invokeDynamic => exact .dynamic (by simp [tag]) (other.tag_mem_iff_dynamic.mpr h.symm)
  | moduleEntry =>
      cases other <;> cases h
      exact .moduleEntry _ _
  | packageEntry =>
      cases other <;> cases h
      exact .packageEntry _ _
  | _ =>
      cases other <;> cases h
      exact .same _

/-- Each slot list tells where its first entry ends, as no entry is read as an unused slot. -/
theorem slotsOf_eq_iff {entries others : List Entry} (hentries : ∀ entry ∈ entries, entry.Fits)
    (hothers : ∀ other ∈ others, other.Fits) :
    slotsOf entries = slotsOf others ↔ List.Forall₂ Entry.Alike entries others := by
  induction entries generalizing others with
  | nil =>
      rw [List.forall₂_nil_left_iff]
      exact eq_comm.trans slotsOf_eq_nil_iff
  | cons entry entries ih =>
      cases others with
      | nil =>
          rw [List.forall₂_nil_right_iff]
          exact slotsOf_eq_nil_iff
      | cons other others =>
          rcases List.forall_mem_cons.mp hentries with ⟨hentry, hentries⟩
          rcases List.forall_mem_cons.mp hothers with ⟨hother, hothers⟩
          rw [List.forall₂_cons, ← ih hentries hothers]
          show entry.constant.slots ++ slotsOf entries = other.constant.slots ++ slotsOf others ↔ _
          constructor
          · intro h
            have hfirst : entry.constant = other.constant := by
              rw [← Option.some_inj, ← entry.head?_slots (slotsOf entries), h, other.head?_slots]
            rw [hfirst] at h
            exact ⟨entry.alike_of_constant_eq hentry hother hfirst, List.append_cancel_left h⟩
          · rintro ⟨hfirst, hrest⟩
            rw [hfirst.constant_eq, hrest]

namespace Content

structure Alike (content other : Content) : Prop where
  version : content.version = other.version
  count : content.count.toNat - 1 = other.count.toNat - 1
  entries : List.Forall₂ Entry.Alike content.entries other.entries
  flags : content.flags = other.flags
  thisClass : content.thisClass = other.thisClass
  superClass : content.superClass = other.superClass
  interfaces : content.interfaces = other.interfaces
  fields : content.fields = other.fields
  methods : content.methods = other.methods
  attributes : content.attributes = other.attributes

theorem layout_eq_iff {content other : Content} (h : content.Fits) (hother : other.Fits) :
    content.layout = other.layout ↔ content.Alike other := by
  have hslots := slotsOf_eq_iff h.entries hother.entries
  unfold layout
  rw [Layout.mk.injEq, Pool.mk.injEq, Array.append_right_inj, Array.mk.injEq, hslots]
  constructor
  · rintro ⟨hversion, hentries, hflags, hthis, hsuper, hinterfaces, hfields, hmethods,
      hattributes⟩
    have hcount : content.count.toNat - 1 = other.count.toNat - 1 := by
      rw [← h.indices, ← hother.indices, ← length_slotsOf, hslots.mpr hentries, length_slotsOf]
    exact ⟨hversion, hcount, hentries, hflags, hthis, hsuper, hinterfaces, hfields, hmethods,
      hattributes⟩
  · intro hsame
    exact ⟨hsame.version, hsame.entries, hsame.flags, hsame.thisClass, hsame.superClass,
      hsame.interfaces, hsame.fields, hsame.methods, hsame.attributes⟩

end Content

/--
A byte string is read if and only if it is a class file written out, of which
each entry is found at its own index. What is read tells all that is kept.
-/
theorem ofBytes_inverts_bytes :
    (∀ bytes layout, Layout.ofBytes bytes = .ok layout ↔
      ∃ content : Content, content.Fits ∧ content.bytes = bytes ∧ content.layout = layout) ∧
    (∀ content : Content, content.Fits →
      content.layout.pool.entries.size = max 1 content.count.toNat ∧
      content.layout.pool.entries[0]? = some .unusable ∧
      ∀ before entry after, content.entries = before ++ entry :: after →
        content.layout.pool.entries[1 + widthOf before]? = some entry.constant ∧
        (entry.width = 2 →
          content.layout.pool.entries[1 + widthOf before + 1]? = some .unusable)) ∧
    ∀ content other : Content, content.Fits → other.Fits →
      (content.layout = other.layout ↔ content.Alike other) := by
  constructor
  · intro bytes layout
    exact ofBytes_eq_ok_iff
  constructor
  · intro content hfits
    have hpool : content.layout.pool.entries.toList = .unusable :: slotsOf content.entries := by
      simp [Content.layout]
    constructor
    · rw [← Array.length_toList, hpool, List.length_cons, length_slotsOf, hfits.indices]
      omega
    constructor
    · rw [← Array.getElem?_toList, hpool]
      rfl
    · intro before entry after hentries
      rw [← Array.getElem?_toList, ← Array.getElem?_toList, hpool, hentries, Nat.add_comm 1]
      exact getElem?_pool before after entry
  · intro content other hfits hother
    exact Content.layout_eq_iff hfits hother

def Content.sample (raw : Bytes) (owner : UInt16) : Content where
  version := ⟨52, 0⟩
  count := 7
  entries := [.long 5, .text raw, .classEntry 3, .field owner 6, .nameAndType owner 3]
  flags := ⟨0x21⟩
  thisClass := 4
  superClass := 0
  interfaces := [4]
  fields := [⟨⟨1⟩, 3, 3, [⟨3, [1, 2]⟩]⟩]
  methods := []
  attributes := [⟨3, []⟩]

theorem ofBytes_samples :
    (Content.sample [0x41] 4).Fits ∧ (Content.sample [0xC1, 0x81] 9).Fits ∧
      Layout.ofBytes (Content.sample [0x41] 4).bytes = .ok (Content.sample [0x41] 4).layout ∧
      (Content.sample [0x41] 4).layout.pool.entries[4]? = some (.classEntry 3) ∧
      (Content.sample [0x41] 4).layout = (Content.sample [0xC1, 0x81] 9).layout := by
  have hone : (Content.sample [0x41] 4).Fits := by decide +kernel
  have htwo : (Content.sample [0xC1, 0x81] 9).Fits := by decide +kernel
  refine ⟨hone, htwo, ?_, ?_, ?_⟩
  · exact (ofBytes_inverts_bytes.1 _ _).mpr ⟨_, hone, rfl, rfl⟩
  · exact ((ofBytes_inverts_bytes.2.1 _ hone).2.2 [.long 5, .text [0x41]] _ _ rfl).1
  · apply (ofBytes_inverts_bytes.2.2 _ _ hone htwo).mpr
    refine ⟨rfl, rfl, ?_, rfl, rfl, rfl, rfl, rfl, rfl, rfl⟩
    exact .cons (.same _) (.cons (.text (by decide +kernel)) (.cons (.same _)
      (.cons (.memberReference (by decide) (by decide)) (.cons (.nameAndType _ _ _) .nil))))

end ClassFile
end Recompile
