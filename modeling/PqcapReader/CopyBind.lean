import PqcapReader.Repack
import Mathlib.Data.List.Perm.Basic

/-!
# Binding a COPY statement

The options of a statement are in a map whose order is not fixed, and whose keys differ
without regard to case. What `PcapngWriteBind` makes of them does not depend on the order:
each option is a mode or a link type, each of the two is chosen by its one option or is
the default, and every column is looked up by its name.
-/

namespace PqcapReader

open ByteCodec Effects

section Chosen

variable {A B : Type} {gives : A → B → Prop} {entry : A} {rest : List A} {absent value given : B}

/-- The value that an entry gives, or the default when none gives one. -/
def Chosen (gives : A → B → Prop) (entries : List A) (absent value : B) : Prop :=
  (∃ entry ∈ entries, gives entry value) ∨
    (∀ entry ∈ entries, ∀ given, ¬ gives entry given) ∧ value = absent

/-- An entry that gives none can be left out. -/
theorem Chosen.cons_of_not (hentry : ∀ given, ¬ gives entry given) :
    Chosen gives (entry :: rest) absent value ↔ Chosen gives rest absent value := by
  rw [Chosen, Chosen, List.exists_mem_cons_iff, List.forall_mem_cons]
  constructor
  · rintro ((hgives | hrest) | ⟨⟨-, hnone⟩, hvalue⟩)
    · exact absurd hgives (hentry value)
    · exact .inl hrest
    · exact .inr ⟨hnone, hvalue⟩
  · rintro (hrest | ⟨hnone, hvalue⟩)
    · exact .inl (.inr hrest)
    · exact .inr ⟨⟨hentry, hnone⟩, hvalue⟩

/-- Behind the one entry that gives a value it takes the place of the default. -/
theorem Chosen.cons_of_gives (hentry : ∀ other, gives entry other ↔ other = given)
    (hrest : ∀ entry ∈ rest, ∀ given, ¬ gives entry given) :
    Chosen gives (entry :: rest) absent value ↔ Chosen gives rest given value := by
  rw [Chosen, Chosen, List.exists_mem_cons_iff, List.forall_mem_cons, hentry value]
  constructor
  · rintro ((hgiven | ⟨other, hother, hgives⟩) | ⟨⟨hnone, -⟩, -⟩)
    · exact .inr ⟨hrest, hgiven⟩
    · exact absurd hgives (hrest other hother value)
    · exact absurd ((hentry given).mpr rfl) (hnone given)
  · rintro (⟨other, hother, hgives⟩ | ⟨-, hgiven⟩)
    · exact absurd hgives (hrest other hother value)
    · exact .inl (.inl hgiven)

/-- The order of the entries does not matter. -/
theorem Chosen.perm {entries entries' : List A} (h : entries.Perm entries') :
    Chosen gives entries absent value ↔ Chosen gives entries' absent value := by
  simp only [Chosen, h.mem_iff]

end Chosen

/-- The option gives the mode. -/
def GivesMode (entry : Bytes × List Value) (mode : Bytes) : Prop :=
  lower entry.1 = ascii "mode" ∧ (mode = ascii "pcapng" ∨ mode = ascii "pqcap") ∧
    ∃ text, entry.2 = [.varchar text] ∧ lower text = mode

/-- The option gives the link type. -/
def GivesLinktype (db : Database) (entry : Bytes × List Value) (linktype : UInt16) : Prop :=
  lower entry.1 = ascii "linktype" ∧ ∃ value v, entry.2 = [value] ∧
    db.castUBigInt value = .ok (some v) ∧ v ≤ 65535 ∧ v.toUInt16 = linktype

section Options

variable {db : Database} {entry : Bytes × List Value}

theorem GivesMode.unique {mode other : Bytes} (h : GivesMode entry mode) :
    GivesMode entry other ↔ other = mode := by
  constructor
  · obtain ⟨-, -, text, hvalue, rfl⟩ := h
    rintro ⟨-, -, text', hvalue', rfl⟩
    rw [hvalue, List.cons.injEq, Value.varchar.injEq] at hvalue'
    rw [hvalue'.1]
  · rintro rfl
    exact h

theorem GivesLinktype.unique {linktype other : UInt16} (h : GivesLinktype db entry linktype) :
    GivesLinktype db entry other ↔ other = linktype := by
  constructor
  · obtain ⟨-, value, v, hvalue, hcast, -, rfl⟩ := h
    rintro ⟨-, value', v', hvalue', hcast', -, rfl⟩
    rw [hvalue, List.cons.injEq] at hvalue'
    rw [← hvalue'.1, hcast, Except.ok.injEq, Option.some.injEq] at hcast'
    rw [hcast']
  · rintro rfl
    exact h

/-- No option is both. -/
theorem GivesMode.not_linktype {mode : Bytes} (h : GivesMode entry mode) (linktype : UInt16) :
    ¬ GivesLinktype db entry linktype := by
  intro hlinktype
  exact absurd (h.1.symm.trans hlinktype.1) (by decide)

theorem GivesLinktype.not_mode {linktype : UInt16} (h : GivesLinktype db entry linktype)
    (mode : Bytes) : ¬ GivesMode entry mode :=
  fun hmode => hmode.not_linktype linktype h

variable (db) in
/-- A number is parsed when the cast yields one. -/
theorem parseUInt64_eq_ok_iff {value : Value} {v : UInt64} (name : Bytes) :
    parseUInt64 db value name = .ok v ↔ db.castUBigInt value = .ok (some v) := by
  rw [parseUInt64, except_bind_eq_ok]
  constructor
  · rintro ⟨cast, hcast, h⟩
    cases cast with
    | none => cases h
    | some found =>
      rw [hcast, Except.ok.inj h]
  · intro hcast
    exact ⟨some v, hcast, rfl⟩

/-- An option is accepted as a mode or as a link type. -/
theorem bindOption_eq_ok_iff {bind next : PqcapCopyBindData} :
    bindOption db bind entry = .ok next ↔
      (∃ mode, GivesMode entry mode ∧ next = { bind with mode }) ∨
        ∃ linktype, GivesLinktype db entry linktype ∧ next = { bind with linktype } := by
  obtain ⟨name, values⟩ := entry
  constructor
  · intro h
    match values with
    | [] => cases h
    | _ :: _ :: _ => cases h
    | [value] =>
      by_cases hmode : lower name = ascii "mode"
      · cases value with
        | varchar text =>
          simp only [bindOption, if_pos hmode] at h
          split at h
          · cases h
          · rename_i hknown
            refine .inl ⟨lower text, ⟨hmode, ?_, text, rfl, rfl⟩, (Except.ok.inj h).symm⟩
            rwa [not_and_or, not_not, not_not] at hknown
        | _ =>
          simp only [bindOption, if_pos hmode] at h
          cases h
      · by_cases hlinktype : lower name = ascii "linktype"
        · simp only [bindOption, if_neg hmode, if_pos hlinktype] at h
          obtain ⟨v, hparse, hbound⟩ := except_bind_eq_ok.mp h
          split at hbound
          · cases hbound
          · rename_i hsmall
            exact .inr ⟨v.toUInt16, ⟨hlinktype, value, v, rfl, (parseUInt64_eq_ok_iff db _).mp hparse,
              UInt64.not_lt.mp hsmall, rfl⟩, (Except.ok.inj hbound).symm⟩
        · simp only [bindOption, if_neg hmode, if_neg hlinktype] at h
          cases h
  · rintro (⟨mode, ⟨hname, hknown, text, hvalues, rfl⟩, rfl⟩ |
      ⟨linktype, ⟨hname, value, v, hvalues, hcast, hsmall, rfl⟩, rfl⟩)
    · obtain rfl : values = [.varchar text] := hvalues
      have hnot : ¬ (lower text ≠ ascii "pcapng" ∧ lower text ≠ ascii "pqcap") := by
        rwa [not_and_or, not_not, not_not]
      simp only [bindOption, if_pos hname, if_neg hnot]
    · obtain rfl : values = [value] := hvalues
      have hother : lower name ≠ ascii "mode" := by
        rw [show lower name = ascii "linktype" from hname]
        decide
      have hparse := (parseUInt64_eq_ok_iff db (ascii "linktype")).mpr hcast
      simp only [bindOption, if_neg hother, if_pos hname]
      rw [hparse]
      exact if_neg (UInt64.not_lt.mpr hsmall)

/-- Options with other keys give no mode. -/
theorem no_mode_of_keys {mode : Bytes} (h : GivesMode entry mode)
    {rest : List (Bytes × List Value)} (hkeys : lower entry.1 ∉ rest.map fun other => lower other.1) :
    ∀ other ∈ rest, ∀ given, ¬ GivesMode other given := by
  intro other hother given hgives
  exact hkeys (List.mem_map.mpr ⟨other, hother, hgives.1.trans h.1.symm⟩)

theorem no_linktype_of_keys {linktype : UInt16} (h : GivesLinktype db entry linktype)
    {rest : List (Bytes × List Value)} (hkeys : lower entry.1 ∉ rest.map fun other => lower other.1) :
    ∀ other ∈ rest, ∀ given, ¬ GivesLinktype db other given := by
  intro other hother given hgives
  exact hkeys (List.mem_map.mpr ⟨other, hother, hgives.1.trans h.1.symm⟩)

/-- Every option is a mode or a link type. -/
def KnownOptions (db : Database) (options : List (Bytes × List Value)) : Prop :=
  ∀ entry ∈ options, (∃ mode, GivesMode entry mode) ∨ ∃ linktype, GivesLinktype db entry linktype

/-- Options with different keys are accepted when all are known, and choose the mode and the link
type. -/
theorem foldlM_bindOption_eq_ok_iff {options : List (Bytes × List Value)}
    (hkeys : (options.map fun entry => lower entry.1).Nodup) {bind next : PqcapCopyBindData} :
    options.foldlM (bindOption db) bind = .ok next ↔
      KnownOptions db options ∧ Chosen GivesMode options bind.mode next.mode ∧
        Chosen (GivesLinktype db) options bind.linktype next.linktype ∧
          next = { bind with mode := next.mode, linktype := next.linktype } := by
  induction options generalizing bind with
  | nil =>
    constructor
    · intro h
      rw [← Except.ok.inj h]
      exact ⟨fun _ h => absurd h List.not_mem_nil, .inr ⟨fun _ h => absurd h List.not_mem_nil, rfl⟩,
        .inr ⟨fun _ h => absurd h List.not_mem_nil, rfl⟩, rfl⟩
    · rintro ⟨-, hmode | ⟨-, hmode⟩, hlinktype | ⟨-, hlinktype⟩, hnext⟩
      · exact absurd hmode.choose_spec.1 List.not_mem_nil
      · exact absurd hmode.choose_spec.1 List.not_mem_nil
      · exact absurd hlinktype.choose_spec.1 List.not_mem_nil
      · rw [hmode, hlinktype] at hnext
        rw [hnext]
        rfl
  | cons entry rest ih =>
    obtain ⟨hentry, hrest⟩ := List.nodup_cons.mp hkeys
    rw [List.foldlM_cons, except_bind_eq_ok, KnownOptions, List.forall_mem_cons]
    constructor
    · rintro ⟨first, hfirst, hlast⟩
      obtain ⟨hknown, hmode, hlinktype, hnext⟩ := (ih hrest).mp hlast
      rcases bindOption_eq_ok_iff.mp hfirst with ⟨mode, hgives, rfl⟩ | ⟨linktype, hgives, rfl⟩
      · refine ⟨⟨.inl ⟨mode, hgives⟩, hknown⟩, ?_, ?_, hnext⟩
        · exact (Chosen.cons_of_gives (fun _ => hgives.unique) (no_mode_of_keys hgives hentry)).mpr
            hmode
        · exact (Chosen.cons_of_not hgives.not_linktype).mpr hlinktype
      · refine ⟨⟨.inr ⟨linktype, hgives⟩, hknown⟩, ?_, ?_, hnext⟩
        · exact (Chosen.cons_of_not hgives.not_mode).mpr hmode
        · exact (Chosen.cons_of_gives (fun _ => hgives.unique)
            (no_linktype_of_keys hgives hentry)).mpr hlinktype
    · rintro ⟨⟨⟨mode, hgives⟩ | ⟨linktype, hgives⟩, hknown⟩, hmode, hlinktype, hnext⟩
      · rw [Chosen.cons_of_gives (fun _ => hgives.unique) (no_mode_of_keys hgives hentry)] at hmode
        rw [Chosen.cons_of_not hgives.not_linktype] at hlinktype
        exact ⟨_, bindOption_eq_ok_iff.mpr (.inl ⟨mode, hgives, rfl⟩),
          (ih hrest).mpr ⟨hknown, hmode, hlinktype, hnext⟩⟩
      · rw [Chosen.cons_of_not hgives.not_mode] at hmode
        rw [Chosen.cons_of_gives (fun _ => hgives.unique) (no_linktype_of_keys hgives hentry)]
          at hlinktype
        exact ⟨_, bindOption_eq_ok_iff.mpr (.inr ⟨linktype, hgives, rfl⟩),
          (ih hrest).mpr ⟨hknown, hmode, hlinktype, hnext⟩⟩

end Options

/-- What a statement is bound to. -/
structure Binds (db : Database) (options : List (Bytes × List Value)) (names : List Bytes)
    (sqlTypes : List LogicalType) (cfg : PqcapCopyBindData) : Prop where
  known : KnownOptions db options
  mode : Chosen GivesMode options (ascii "pqcap") cfg.mode
  linktype : Chosen (GivesLinktype db) options 1 cfg.linktype
  columns : cfg = bindColumns cfg names
  payload : cfg.idxPayload.bind (sqlTypes[·]?) = some .blob
  time : cfg.idxTimestampMicros ≠ none
  origLen : cfg.idxOrigLen ≠ none

/-- The checks on the columns pass exactly with the three that are required. -/
theorem bind_checks_eq_ok_iff {bind cfg : PqcapCopyBindData} {sqlTypes : List LogicalType} :
    (if bind.idxPayload.bind (sqlTypes[·]?) ≠ some .blob then
      .error (.binderException (ascii "COPY (FORMAT pcapng) requires a BLOB payload column"))
    else if bind.idxTimestampMicros = none then
      .error (.binderException (ascii "COPY (FORMAT pcapng) requires timestamp_micros"))
    else if bind.idxOrigLen = none then
      .error (.binderException (ascii "COPY (FORMAT pcapng) requires orig_len"))
    else
      (.ok bind : Except Exception PqcapCopyBindData)) = .ok cfg ↔
      bind.idxPayload.bind (sqlTypes[·]?) = some .blob ∧ bind.idxTimestampMicros ≠ none ∧
        bind.idxOrigLen ≠ none ∧ bind = cfg := by
  split
  · rename_i hpayload
    exact ⟨fun h => (by cases h), fun h => absurd h.1 hpayload⟩
  · rename_i hpayload
    split
    · rename_i htime
      exact ⟨fun h => (by cases h), fun h => absurd htime h.2.1⟩
    · rename_i htime
      split
      · rename_i horigLen
        exact ⟨fun h => (by cases h), fun h => absurd horigLen h.2.2.1⟩
      · rename_i horigLen
        exact ⟨fun h => ⟨not_not.mp hpayload, htime, horigLen, Except.ok.inj h⟩,
          fun h => congrArg Except.ok h.2.2.2⟩

/-- `PcapngWriteBind` accepts exactly the statements whose options are known and whose columns
include the three required ones, and binds each to one thing, whatever the order in which the map
of the options is read. -/
theorem pcapngWriteBind_eq_ok_iff (db : Database) {options : List (Bytes × List Value)}
    (hkeys : (options.map fun entry => lower entry.1).Nodup) (names : List Bytes)
    (sqlTypes : List LogicalType) (cfg : PqcapCopyBindData) :
    (pcapngWriteBind db options names sqlTypes = .ok cfg ↔ Binds db options names sqlTypes cfg) ∧
      ∀ reordered, options.Perm reordered →
        (pcapngWriteBind db reordered names sqlTypes = .ok cfg ↔
          pcapngWriteBind db options names sqlTypes = .ok cfg) := by
  have hbinds {entries : List (Bytes × List Value)}
      (hentries : (entries.map fun entry => lower entry.1).Nodup) :
      pcapngWriteBind db entries names sqlTypes = .ok cfg ↔ Binds db entries names sqlTypes cfg := by
    rw [pcapngWriteBind, except_bind_eq_ok]
    simp only [foldlM_bindOption_eq_ok_iff hentries, bind_checks_eq_ok_iff]
    constructor
    · rintro ⟨bind, ⟨hknown, hmode, hlinktype, hbind⟩, hpayload, htime, horigLen, rfl⟩
      exact ⟨hknown, hmode, hlinktype, rfl, hpayload, htime, horigLen⟩
    · rintro ⟨hknown, hmode, hlinktype, hcolumns, hpayload, htime, horigLen⟩
      refine ⟨{ mode := cfg.mode, linktype := cfg.linktype },
        ⟨hknown, hmode, hlinktype, rfl⟩, ?_⟩
      have hsame : bindColumns { mode := cfg.mode, linktype := cfg.linktype } names = cfg :=
        Eq.trans rfl hcolumns.symm
      rw [hsame]
      exact ⟨hpayload, htime, horigLen, rfl⟩
  refine ⟨hbinds hkeys, fun reordered hperm => ?_⟩
  have hmap := hperm.map fun entry => lower entry.1
  rw [hbinds hkeys, hbinds (hmap.nodup_iff.mp hkeys)]
  constructor
  · intro h
    exact { h with
      known := fun entry hentry => h.known entry (hperm.mem_iff.mp hentry)
      mode := (Chosen.perm hperm).mpr h.mode
      linktype := (Chosen.perm hperm).mpr h.linktype }
  · intro h
    exact { h with
      known := fun entry hentry => h.known entry (hperm.mem_iff.mpr hentry)
      mode := (Chosen.perm hperm).mp h.mode
      linktype := (Chosen.perm hperm).mp h.linktype }

/-- Two options in capitals. -/
def sampleOptions : List (Bytes × List Value) :=
  [(ascii "MODE", [.varchar (ascii "PCAPNG")]), (ascii "LinkType", [.ubigint 101])]

/-- They are bound in either order. -/
theorem sampleOptions_bind :
    (pcapngWriteBind memoryDatabase sampleOptions packetColumns packetTypes =
        .ok (bindColumns { mode := ascii "pcapng", linktype := 101 } packetColumns) ↔
      Binds memoryDatabase sampleOptions packetColumns packetTypes
        (bindColumns { mode := ascii "pcapng", linktype := 101 } packetColumns)) ∧
      ∀ reordered, sampleOptions.Perm reordered →
        (pcapngWriteBind memoryDatabase reordered packetColumns packetTypes =
            .ok (bindColumns { mode := ascii "pcapng", linktype := 101 } packetColumns) ↔
          pcapngWriteBind memoryDatabase sampleOptions packetColumns packetTypes =
            .ok (bindColumns { mode := ascii "pcapng", linktype := 101 } packetColumns)) := by
  have hkeys : (sampleOptions.map fun entry => lower entry.1).Nodup := by decide
  exact pcapngWriteBind_eq_ok_iff memoryDatabase hkeys _ _ _

end PqcapReader
