import Mathlib.Algebra.Ring.Int.Defs
import Mathlib.Data.List.Nodup
import NodeGraph.Json.Record
import NodeGraph.Proofs.Json.Documents

/-!
# What is written reads back as the same data

A record is read with the fields it was written with, since its names are apart
(`Json.fields?_record`), and a number with the value it was written for. So values that are no
floats, epochs, statistics, links and addresses are read back as what was written, and different
ones are written differently (`written_reads_back`).
-/

namespace NodeGraph

/-- What is written for the values that are admitted reads back as the same value, and different
ones are written differently. -/
structure RoundTrips {α : Type} (write : α → List Char) (form : Json → Option α)
    (admitted : α → Prop) : Prop where
  reads_back : ∀ {a}, admitted a → readJson form (String.ofList (write a)) = .ok a
  written_apart : ∀ {a b}, admitted a → admitted b → write a = write b → a = b

theorem readJson_eq_ok {α : Type} {form : Json → Option α} {text : String} {document : Json} {a : α}
    (found : Json.ofText? text = some document) (formed : form document = some a) :
    readJson form text = .ok a := by
  rw [readJson, found, Option.bind_some, formed]

/-- What reads back was not written for anything else. -/
theorem RoundTrips.of_reads_back {α : Type} {write : α → List Char} {form : Json → Option α}
    {admitted : α → Prop}
    (reads_back : ∀ {a}, admitted a → readJson form (String.ofList (write a)) = .ok a) :
    RoundTrips write form admitted where
  reads_back := reads_back
  written_apart {a b} ha hb same := by
    have first := reads_back ha
    rw [same, reads_back hb] at first
    exact (Except.ok.inj first).symm

namespace Json

theorem signed?_numeralOf (i : Int64) : signed? (.number (numeralOf i.toInt)) = some i := by
  rw [signed?, integral?_numeralOf, Option.bind_some, int64?_eq_some_iff]

theorem unsigned?_number {n : Numeral} {i : Int} (value : n.integral? = some i) :
    unsigned? (.number n) = if 0 ≤ i ∧ i < UInt64.size then some i.toNat else none := by
  simp only [unsigned?, value, Option.bind_eq_bind, Option.bind_some]

theorem unsigned?_numeralOf {n : Nat} (fits : n < UInt64.size) :
    unsigned? (.number (numeralOf n)) = some n := by
  rw [unsigned?_number (integral?_numeralOf n),
    if_pos ⟨Int.natCast_nonneg n, Int.ofNat_lt.mpr fits⟩, Int.toNat_natCast]

/-- Where the keys are apart, a member is found under its key. -/
theorem lookup_member {members : List Member} (apart : (members.map Member.key).Nodup) {m : Member}
    (member : m ∈ members) :
    (members.map fun m => (some m.key, m.document)).lookup (some m.key) = some m.document := by
  induction members with
  | nil => cases member
  | cons first members ih =>
    rw [List.map_cons, List.nodup_cons] at apart
    rw [List.map_cons]
    rcases List.mem_cons.mp member with rfl | behind
    · exact List.lookup_cons_self
    · have other : (some m.key == some first.key) = false := by
        rw [beq_eq_false_iff_ne]
        rintro same
        exact apart.1 (Option.some.inj same ▸ List.mem_map_of_mem behind)
      rw [List.lookup_cons, other]
      exact ih apart.2 behind

/-- A record is read with the fields that its members give it. -/
theorem fields?_record {members : List Member} (apart : (members.map Member.key).Nodup) :
    (Json.object (members.map fun m => (some m.key, m.document))).fields?
      (members.map Member.key) = some (members.map fun m => some m.document) := by
  have once (key : String) :
      occurrences (members.map fun m => (some m.key, m.document)) key ≤ 1 := by
    rw [occurrences, List.countP_map]
    have count := List.nodup_iff_count_le_one.mp apart key
    rw [List.count, List.countP_map] at count
    refine Nat.le_trans (Nat.le_of_eq (List.countP_congr fun m _ => ?_)) count
    simp
  rw [fields?, if_pos]
  · rw [List.map_map]
    exact congrArg some (List.map_congr_left fun m member => lookup_member apart member)
  · constructor
    · simp
    · rw [List.all_eq_true]
      exact fun key _ => decide_eq_true (once key)

/-- A count under its name, as a member of a record. -/
def countMember (entry : String × Nat) : Member :=
  ⟨entry.1, writeInteger entry.2, .number (numeralOf entry.2)⟩

/-- Fields that are all given and all read make up the whole record. -/
theorem mapM_bind_fields {α β : Type} {entries : List α} {document : α → Json}
    {form : Json → Option β} {value : α → β}
    (formed : ∀ entry ∈ entries, form (document entry) = some (value entry)) :
    (entries.map fun entry => some (document entry)).mapM (fun field => field.bind form) =
      some (entries.map value) := by
  induction entries with
  | nil => rfl
  | cons entry entries ih =>
    rw [List.map_cons, List.mapM_cons, ih fun e member => formed e (List.mem_cons_of_mem _ member),
      Option.bind_some, formed entry List.mem_cons_self]
    rfl

/-- A record of counts that fit 64 bits is read with the same counts. -/
theorem unsignedFields?_written (first : String × Nat) (entries : List (String × Nat))
    (apart : ((first :: entries).map Prod.fst).Nodup)
    (fits : ∀ entry ∈ first :: entries, entry.2 < UInt64.size) :
    ∃ document, ofText? (String.ofList (writeObject ((first :: entries).map fun entry =>
        (entry.1, writeInteger entry.2)))) = some document ∧
      document.unsignedFields? ((first :: entries).map Prod.fst) =
        some ((first :: entries).map Prod.snd) := by
  have reads := Reads.object (countMember first) (entries.map countMember) (by
    rw [← List.map_cons, List.forall_mem_map]
    exact fun entry _ => reads_writeInteger entry.2)
  rw [← List.map_cons, List.map_map, List.map_map] at reads
  refine ⟨_, reads.ofText?, ?_⟩
  have keys : (((first :: entries).map countMember).map Member.key) =
      (first :: entries).map Prod.fst := List.map_map
  have found := fields?_record (keys ▸ apart)
  rw [keys, List.map_map, List.map_map] at found
  have counted : ∀ entry ∈ first :: entries,
      unsigned? (countMember entry).document = some entry.2 :=
    fun entry member => unsigned?_numeralOf (fits entry member)
  have values := mapM_bind_fields counted
  rw [unsignedFields?, found, Option.bind_eq_bind, Option.bind_some]
  exact values

/-- An object of one member. -/
theorem ofText?_member {key : String} {text : List Char} {document : Json}
    (reads : Reads text document) :
    ofText? (String.ofList (writeObject [(key, text)])) = some (.object [(some key, document)]) :=
  (Reads.object ⟨key, text, document⟩ [] (by simpa using reads)).ofText?

end Json

open Json in
/-- A value that is no float reads back as itself. -/
theorem Value.readJson_toJson {v : Value} (exact : ∀ x, v ≠ .float x) :
    readJson ofJson? (String.ofList v.toJson) = .ok v := by
  cases v with
  | empty => exact readJson_eq_ok (reads_writeString "None").ofText? rfl
  | bool b => exact readJson_eq_ok (ofText?_member (reads_writeTruth b)) rfl
  | int i =>
    refine readJson_eq_ok (ofText?_member (reads_writeInteger i.toInt)) ?_
    exact congrArg (Option.map Value.int) (signed?_numeralOf i)
  | float x => exact absurd rfl (exact x)
  | text s => exact readJson_eq_ok (ofText?_member (reads_writeString s)) rfl

open Json in
theorem Epoch.readJson_toJson (n : Int64) :
    readJson ofJson? (String.ofList (toJson ⟨n.toInt⟩)) = .ok ⟨n.toInt⟩ := by
  refine readJson_eq_ok (ofText?_member (reads_writeInteger n.toInt)) ?_
  have found := @fields?_record [⟨"valid_id", [], .number (numeralOf n.toInt)⟩] (by simp)
  dsimp only [List.map] at found
  rw [ofJson?]
  rw [found]
  exact congrArg (Option.map fun n : Int64 => (⟨n.toInt⟩ : Epoch)) (signed?_numeralOf n)

open Json in
theorem Statistics.readJson_toJson {s : Statistics} (fits : ∀ n ∈ s.counts, n < UInt64.size) :
    readJson ofJson? (String.ofList s.toJson) = .ok s := by
  obtain ⟨document, found, counts⟩ := unsignedFields?_written ("hits", s.hits)
    [("misses", s.misses), ("evaluations", s.evaluations), ("invalidations", s.invalidations),
      ("wraps", s.wraps), ("cycles_flagged", s.cycles)] (by simp)
    (by simpa [Statistics.counts] using fits)
  refine readJson_eq_ok found ?_
  change document.unsignedFields? fieldNames = some s.counts at counts
  rw [ofJson?, counts]
  rfl

open Json in
theorem Link.readJson_toJson {l : Link}
    (fits : ∀ n ∈ [l.source.node, l.source.port, l.target.node, l.target.port], n < UInt64.size) :
    readJson ofJson? (String.ofList l.toJson) = .ok l := by
  obtain ⟨document, found, counts⟩ := unsignedFields?_written ("from_node", l.source.node)
    [("from_port", l.source.port), ("to_node", l.target.node), ("to_port", l.target.port)] (by simp)
    (by simpa using fits)
  refine readJson_eq_ok found ?_
  change document.unsignedFields? ["from_node", "from_port", "to_node", "to_port"] =
    some [l.source.node, l.source.port, l.target.node, l.target.port] at counts
  rw [ofJson?, counts]
  rfl

open Json in
/-- Both kinds of addresses are written as records of a node and a port. -/
theorem Json.unsignedFields?_address {node port : Nat} (nodeFits : node < UInt64.size)
    (portFits : port < UInt64.size) :
    ∃ document, ofText? (String.ofList (writeObject
        [("node", writeInteger node), ("port", writeInteger port)])) = some document ∧
      document.unsignedFields? ["node", "port"] = some [node, port] :=
  unsignedFields?_written ("node", node) [("port", port)] (by simp)
    (by simpa using ⟨nodeFits, portFits⟩)

theorem InputAddr.readJson_toJson {a : InputAddr} (nodeFits : a.node < UInt64.size)
    (portFits : a.port < UInt64.size) : readJson ofJson? (String.ofList a.toJson) = .ok a := by
  obtain ⟨document, found, counts⟩ := Json.unsignedFields?_address nodeFits portFits
  refine readJson_eq_ok found ?_
  rw [ofJson?, counts]
  rfl

theorem OutputAddr.readJson_toJson {a : OutputAddr} (nodeFits : a.node < UInt64.size)
    (portFits : a.port < UInt64.size) : readJson ofJson? (String.ofList a.toJson) = .ok a := by
  obtain ⟨document, found, counts⟩ := Json.unsignedFields?_address nodeFits portFits
  refine readJson_eq_ok found ?_
  rw [ofJson?, counts]
  rfl

/-- Every value that is no float, every epoch and every record of counts, with numbers of 64 bits,
reads back from what is written for it, and different ones are written differently. -/
theorem written_reads_back :
    RoundTrips Value.toJson Value.ofJson? (fun v => ∀ x, v ≠ .float x) ∧
    RoundTrips Epoch.toJson Epoch.ofJson? (fun e => ∃ n : Int64, n.toInt = e.number) ∧
    RoundTrips Statistics.toJson Statistics.ofJson? (fun s => ∀ n ∈ s.counts, n < UInt64.size) ∧
    RoundTrips Link.toJson Link.ofJson? (fun l =>
      ∀ n ∈ [l.source.node, l.source.port, l.target.node, l.target.port], n < UInt64.size) ∧
    RoundTrips InputAddr.toJson InputAddr.ofJson?
      (fun a => a.node < UInt64.size ∧ a.port < UInt64.size) ∧
    RoundTrips OutputAddr.toJson OutputAddr.ofJson?
      (fun a => a.node < UInt64.size ∧ a.port < UInt64.size) := by
  refine ⟨.of_reads_back Value.readJson_toJson, .of_reads_back ?_,
    .of_reads_back Statistics.readJson_toJson, .of_reads_back Link.readJson_toJson,
    .of_reads_back fun fits => InputAddr.readJson_toJson fits.1 fits.2,
    .of_reads_back fun fits => OutputAddr.readJson_toJson fits.1 fits.2⟩
  rintro ⟨_⟩ ⟨n, rfl⟩
  exact Epoch.readJson_toJson n

/-- A text of a quote, a backslash, a control character and a character of the upper planes, the
least integer and the greatest address read back. -/
theorem written_reads_back_extremes :
    readJson Value.ofJson? (String.ofList (Value.text "\"\\\x01😀").toJson) =
        .ok (.text "\"\\\x01😀") ∧
      readJson Epoch.ofJson? (String.ofList (Epoch.toJson ⟨-2 ^ 63⟩)) = .ok ⟨-2 ^ 63⟩ ∧
      readJson InputAddr.ofJson? (String.ofList (InputAddr.toJson ⟨UInt64.size - 1, 0⟩)) =
        .ok ⟨UInt64.size - 1, 0⟩ := by
  obtain ⟨values, epochs, _, _, addresses, _⟩ := written_reads_back
  exact ⟨values.reads_back nofun, epochs.reads_back ⟨Int64.minValue, rfl⟩,
    addresses.reads_back ⟨by decide, by decide⟩⟩

end NodeGraph
