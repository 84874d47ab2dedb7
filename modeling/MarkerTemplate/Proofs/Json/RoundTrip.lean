import MarkerTemplate.Proofs.Json.Scalars
import MarkerTemplate.Proofs.OrderedMap
import MarkerTemplate.Proofs.Text.Splitting

/-!
# Reading back what has been written

The compact text of a value is read back as the value, if its numbers are whole and the names in
each of its objects are distinct.

## Main definitions

- `Json.Readable` — the data is read back as it was

## Design notes

Reading goes by the brackets that may still be opened, so the induction is on their number. What
stands inside a pair of brackets is read by a reader that is only known to read the parts; the
lemmas about items and members hold of any such reader.
-/

namespace MarkerTemplate

namespace Json

/-- Data with at most `depth` brackets inside one another, with whole numbers that fit into 64 bits,
with or without sign, and with distinct names in each object. -/
inductive Readable : (depth : Nat) → Json → Prop
  | null {depth : Nat} : Readable depth .null
  | bool {depth : Nat} (b : Bool) : Readable depth (.bool b)
  | int {depth : Nat} {n : Int} (hlow : -(Nat.pow 2 63 : Int) ≤ n) (hhigh : n < Nat.pow 2 64) :
    Readable depth (.number (.int n))
  | string {depth : Nat} (s : Text) : Readable depth (.string s)
  | array {depth : Nat} {items : List Json} (hitems : ∀ item ∈ items, Readable depth item) :
    Readable (depth + 1) (.array items)
  | object {depth : Nat} {members : List (Text × Json)}
    (hnames : (members.map Prod.fst).Nodup)
    (hmembers : ∀ member ∈ members, Readable depth member.2) :
    Readable (depth + 1) (.object members)

/-! ### The parts of a value -/

theorem skipBlanks_cons {c : Char} (h : isBlank c = false) (s : Text) :
    skipBlanks (c :: s) = c :: s := by
  rw [skipBlanks, List.dropWhile_cons, h]
  rfl

theorem gives_readValueWith_quote {inner : Option ValueReader} {s t rest : Text}
    (h : (readString s).Gives t rest) : (readValueWith inner ('"' :: s)).Gives (.string t) rest :=
  (h.map Json.string).widen (Nat.le_succ _)

theorem gives_readValueWith_null {inner : Option ValueReader} {rest : Text} :
    (readValueWith inner (write .null ++ rest)).Gives .null rest :=
  ⟨by simp [write]; omega, rfl⟩

theorem gives_readValueWith_bool {inner : Option ValueReader} (b : Bool) {rest : Text} :
    (readValueWith inner (write (.bool b) ++ rest)).Gives (.bool b) rest := by
  cases b with
  | true => exact ⟨by simp [write]; omega, rfl⟩
  | false => exact ⟨by simp [write]; omega, rfl⟩

theorem gives_readValueWith_array {value : ValueReader} {s rest : Text} {items : List Json}
    (h : (readArray value s).Gives items rest) :
    (readValueWith (some value) ('[' :: s)).Gives (.array items) rest :=
  (h.map Json.array).widen (Nat.le_succ _)

theorem gives_readValueWith_object {value : ValueReader} {s rest : Text}
    {members : List (Text × Json)} (h : (readObject value s).Gives members rest) :
    (readValueWith (some value) ('\x7b' :: s)).Gives (ofMembers members) rest :=
  (h.map ofMembers).widen (Nat.le_succ _)

theorem gives_readValueWith_minus {inner : Option ValueReader} {s rest : Text} {json : Json}
    (h : (readUnsigned true s).Gives json rest) :
    (readValueWith inner ('-' :: s)).Gives json rest :=
  h.widen (Nat.le_succ _)

theorem ne_of_isDigit {c d : Char} (hc : c.isDigit = true) (hd : d.isDigit = false) : c ≠ d := by
  rintro rfl
  exact absurd hc (by rw [hd]; decide)

theorem isBlank_of_isDigit {c : Char} (h : c.isDigit = true) : isBlank c = false := by
  rw [isBlank, decide_eq_false_iff_not]
  rintro (rfl | rfl | rfl | rfl) <;> exact absurd h (by decide)

theorem gives_readValueWith_digit {inner : Option ValueReader} {c : Char} {s rest : Text}
    {json : Json} (hc : c.isDigit = true) (h : (readUnsigned false (c :: s)).Gives json rest) :
    (readValueWith inner (c :: s)).Gives json rest := by
  have hne : ∀ d : Char, d.isDigit = false → c ≠ d := fun _ => ne_of_isDigit hc
  have hblank := isBlank_of_isDigit hc
  rw [readValueWith]
  split
  · rename_i hnil
    cases (skipBlanks_cons hblank s).symm.trans hnil
  · rename_i hcons
    cases (skipBlanks_cons hblank s).symm.trans hcons
    simp only [hne 'n' rfl, hne 't' rfl, hne 'f' rfl, hne '-' rfl, hc, if_false, if_true]
    exact h.widen _

/-- No value begins with a blank or with a bracket that closes an array. -/
theorem Readable.exists_write_eq_cons {depth : Nat} {json : Json} (h : Readable depth json) :
    ∃ c s, json.write = c :: s ∧ isBlank c = false ∧ c ≠ ']' := by
  cases h with
  | null => exact ⟨'n', _, rfl, rfl, by decide⟩
  | bool b => cases b <;> exact ⟨_, _, rfl, rfl, by decide⟩
  | @int depth n hlow hhigh =>
    cases n with
    | ofNat n =>
      obtain ⟨c, s, hdigits, hc⟩ := exists_digitsOf_eq_cons n
      exact ⟨c, s, hdigits, isBlank_of_isDigit hc, ne_of_isDigit hc rfl⟩
    | negSucc n => exact ⟨'-', _, rfl, rfl, by decide⟩
  | string s => exact ⟨'"', _, rfl, rfl, by decide⟩
  | array hitems => exact ⟨'[', _, rfl, rfl, by decide⟩
  | object hnames hmembers => exact ⟨'\x7b', _, rfl, rfl, by decide⟩

theorem Readable.exists_skipBlanks_eq_cons {depth : Nat} {json : Json} (h : Readable depth json)
    (rest : Text) : ∃ c s, skipBlanks (json.write ++ rest) = c :: s ∧ c ≠ ']' := by
  obtain ⟨c, s, hwrite, hblank, hclose⟩ := h.exists_write_eq_cons
  refine ⟨c, s ++ rest, ?_, hclose⟩
  rw [hwrite]
  exact skipBlanks_cons hblank _

/-! ### Items and members -/

/-- The texts behind the first one, each behind its comma, and what closes the brackets. -/
def laterParts (parts : List Text) (close : Char) (rest : Text) : Text :=
  parts.flatMap ([','] ++ ·) ++ close :: rest

theorem laterParts_cons (part : Text) (parts : List Text) (close : Char) (rest : Text) :
    laterParts (part :: parts) close rest = ',' :: (part ++ laterParts parts close rest) := by
  simp [laterParts]

/-- Between brackets, the first part stands in front of the later ones. -/
theorem intercalate_append_close (part : Text) (parts : List Text) (close : Char) (rest : Text) :
    [','].intercalate (part :: parts) ++ close :: rest = part ++ laterParts parts close rest := by
  rw [Text.intercalate_cons, List.append_assoc, laterParts]

theorem endsNumber_laterParts (parts : List Text) {close : Char} (rest : Text)
    (h : close.isDigit = false ∧ close ≠ '.' ∧ close ≠ 'e' ∧ close ≠ 'E') :
    EndsNumber (laterParts parts close rest) := by
  cases parts with
  | nil => exact endsNumber_cons h
  | cons part parts => exact endsNumber_cons (by decide)

/-- The reader reads back the value whatever follows, unless a number could go on there. -/
def ReadsBack (value : ValueReader) (json : Json) : Prop :=
  ∀ rest, EndsNumber rest → (value (json.write ++ rest)).Gives json rest

section Items

variable {value : ValueReader} {depth : Nat} (rest : Text)

theorem gives_readItems {items : List Json}
    (h : ∀ item ∈ items, Readable depth item ∧ ReadsBack value item) :
    (readItems value (laterParts (items.map write) ']' rest)).Gives items rest := by
  induction items with
  | nil =>
    rw [readItems.eq_def]
    exact ⟨Nat.lt_succ_self _, rfl⟩
  | cons item items ih =>
    obtain ⟨hreadable, hback⟩ := h item List.mem_cons_self
    have hrest := ih fun later hlater => h later (List.mem_cons_of_mem item hlater)
    obtain ⟨hlt, hitem⟩ := hback (laterParts (items.map write) ']' rest)
      (endsNumber_laterParts _ rest (by decide))
    obtain ⟨c, s, hskip, hclose⟩ :=
      hreadable.exists_skipBlanks_eq_cons (laterParts (items.map write) ']' rest)
    rw [List.map_cons, laterParts_cons, readItems.eq_def]
    split
    · rename_i hnil
      cases (skipBlanks_cons (c := ',') rfl _).symm.trans hnil
    · rename_i hcons
      cases (skipBlanks_cons (c := ',') rfl _).symm.trans hcons
      rw [if_neg (by decide), if_pos rfl, hskip]
      split
      · rename_i hbracket
        cases hbracket
        exact absurd rfl hclose
      · rw [hitem]
        exact (hrest.map (item :: ·)).widen _

theorem gives_readArray {items : List Json}
    (h : ∀ item ∈ items, Readable depth item ∧ ReadsBack value item) :
    (readArray value ([','].intercalate (items.map write) ++ ']' :: rest)).Gives items rest := by
  cases items with
  | nil => exact ⟨Nat.lt_succ_self _, rfl⟩
  | cons item items =>
    obtain ⟨hreadable, hback⟩ := h item List.mem_cons_self
    have hrest := gives_readItems rest fun later hlater =>
      h later (List.mem_cons_of_mem item hlater)
    obtain ⟨hlt, hitem⟩ := hback (laterParts (items.map write) ']' rest)
      (endsNumber_laterParts _ rest (by decide))
    obtain ⟨c, s, hskip, hclose⟩ :=
      hreadable.exists_skipBlanks_eq_cons (laterParts (items.map write) ']' rest)
    rw [List.map_cons, intercalate_append_close, readArray]
    split
    · rename_i hnil
      cases hskip.symm.trans hnil
    · rename_i hbracket
      cases hskip.symm.trans hbracket
      exact absurd rfl hclose
    · rw [hitem]
      exact (hrest.map (item :: ·)).widen _

/-- The text of a member: its quoted name, a colon and its value. -/
def writeMember (member : Text × Json) : Text :=
  quote member.1 ++ ':' :: member.2.write

theorem skipBlanks_writeMember (member : Text × Json) (rest : Text) :
    skipBlanks (writeMember member ++ rest) = writeMember member ++ rest :=
  skipBlanks_cons rfl _

theorem gives_readMember {member : Text × Json} (h : ReadsBack value member.2)
    (hrest : EndsNumber rest) :
    (readMember value (writeMember member ++ rest)).Gives member rest := by
  obtain ⟨hlt, hname⟩ := gives_readString member.1 (':' :: (member.2.write ++ rest))
  have htext : writeMember member ++ rest =
      '"' :: (member.1.flatMap escape ++ '"' :: ':' :: (member.2.write ++ rest)) := by
    simp [writeMember, quote]
  rw [htext, readMember]
  simp only [hname]
  exact ((h rest hrest).map fun v => (member.1, v)).widen _

theorem gives_readMembers {members : List (Text × Json)}
    (h : ∀ member ∈ members, ReadsBack value member.2) :
    (readMembers value (laterParts (members.map writeMember) '\x7d' rest)).Gives members rest := by
  induction members with
  | nil =>
    rw [readMembers.eq_def]
    exact ⟨Nat.lt_succ_self _, rfl⟩
  | cons member members ih =>
    have hrest := ih fun later hlater => h later (List.mem_cons_of_mem member hlater)
    have hmember := gives_readMember (laterParts (members.map writeMember) '\x7d' rest)
      (h member List.mem_cons_self) (endsNumber_laterParts _ rest (by decide))
    have hskip := skipBlanks_writeMember member (laterParts (members.map writeMember) '\x7d' rest)
    rw [← hskip] at hmember
    obtain ⟨hlt, hmember⟩ := hmember
    rw [List.map_cons, laterParts_cons, readMembers.eq_def]
    split
    · rename_i hnil
      cases (skipBlanks_cons (c := ',') rfl _).symm.trans hnil
    · rename_i hcons
      cases (skipBlanks_cons (c := ',') rfl _).symm.trans hcons
      rw [if_neg (by decide), if_pos rfl]
      split
      · rename_i hnil
        cases hskip.symm.trans hnil
      · rename_i hbrace
        cases hskip.symm.trans hbrace
      · simp only [hmember]
        exact (hrest.map (member :: ·)).widen _

theorem gives_readObject {members : List (Text × Json)}
    (h : ∀ member ∈ members, ReadsBack value member.2) :
    (readObject value ([','].intercalate (members.map writeMember) ++ '\x7d' :: rest)).Gives members
      rest := by
  cases members with
  | nil => exact ⟨Nat.lt_succ_self _, rfl⟩
  | cons member members =>
    have hrest := gives_readMembers rest fun later hlater =>
      h later (List.mem_cons_of_mem member hlater)
    have hmember := gives_readMember (laterParts (members.map writeMember) '\x7d' rest)
      (h member List.mem_cons_self) (endsNumber_laterParts _ rest (by decide))
    have hskip := skipBlanks_writeMember member (laterParts (members.map writeMember) '\x7d' rest)
    rw [← hskip] at hmember
    obtain ⟨hlt, hmember⟩ := hmember
    rw [List.map_cons, intercalate_append_close, readObject]
    split
    · rename_i hnil
      cases hskip.symm.trans hnil
    · rename_i hbrace
      cases hskip.symm.trans hbrace
    · simp only [hmember]
      exact (hrest.map (member :: ·)).widen _

end Items

/-! ### Values -/

theorem gives_readValueWith_int {inner : Option ValueReader} {n : Int} {rest : Text}
    (hlow : -(Nat.pow 2 63 : Int) ≤ n) (hhigh : n < Nat.pow 2 64) (hrest : EndsNumber rest) :
    (readValueWith inner (integerText n ++ rest)).Gives (.number (.int n)) rest := by
  cases n with
  | ofNat n =>
    have hbound : n < Nat.pow 2 64 := by
      rw [Int.ofNat_eq_natCast] at hhigh
      omega
    obtain ⟨c, s, hdigits, hc⟩ := exists_digitsOf_eq_cons n
    have hnumber := gives_readUnsigned hrest (wholeNumber?_false hbound)
    rw [integerText]
    rw [hdigits] at hnumber ⊢
    exact gives_readValueWith_digit hc hnumber
  | negSucc n =>
    have hbound : n + 1 ≤ Nat.pow 2 63 := by
      rw [Int.negSucc_eq] at hlow
      omega
    exact gives_readValueWith_minus
      (gives_readUnsigned hrest (wholeNumber?_true (Nat.succ_pos n) hbound))

theorem exists_readValue_eq (depth : Nat) : ∃ inner, readValue depth = readValueWith inner := by
  cases depth <;> exact ⟨_, rfl⟩

/-- Where `depth` brackets may still be opened, a value with at most as many is read back. -/
theorem Readable.readsBack {depth : Nat} {json : Json} (h : Readable depth json) :
    ReadsBack (readValue depth) json := by
  intro rest hrest
  induction h generalizing rest with
  | @null depth =>
    obtain ⟨inner, hinner⟩ := exists_readValue_eq depth
    rw [hinner]
    exact gives_readValueWith_null
  | @bool depth b =>
    obtain ⟨inner, hinner⟩ := exists_readValue_eq depth
    rw [hinner]
    exact gives_readValueWith_bool b
  | @int depth n hlow hhigh =>
    obtain ⟨inner, hinner⟩ := exists_readValue_eq depth
    rw [hinner]
    exact gives_readValueWith_int hlow hhigh hrest
  | @string depth s =>
    obtain ⟨inner, hinner⟩ := exists_readValue_eq depth
    have htext : write (.string s) ++ rest = '"' :: (s.flatMap escape ++ '"' :: rest) := by
      simp [write, quote]
    rw [hinner, htext]
    exact gives_readValueWith_quote (gives_readString s rest)
  | @array depth items hitems ih =>
    have htext : write (.array items) ++ rest =
        '[' :: ([','].intercalate (items.map write) ++ ']' :: rest) := by
      simp [write, writeItems_eq_map]
    rw [htext]
    exact gives_readValueWith_array (gives_readArray rest fun item hitem =>
      ⟨hitems item hitem, ih item hitem⟩)
  | @object depth members hnames hmembers ih =>
    have hparts : writeMembers members = members.map writeMember := writeMembers_eq_map members
    have htext : write (.object members) ++ rest =
        '\x7b' :: ([','].intercalate (members.map writeMember) ++ '\x7d' :: rest) := by
      simp [write, hparts]
    have hsame : ofMembers members = .object members := by
      rw [ofMembers, OrderedMap.entries_ofList hnames]
    rw [htext, ← hsame]
    exact gives_readValueWith_object (gives_readObject rest ih)

/-- A value whose brackets are not too deep is read back from its text. -/
theorem read_write {json : Json} (h : Readable maxDepth json) : read json.write = .ok json := by
  have hback := h.readsBack [] endsNumber_nil
  rw [List.append_nil] at hback
  obtain ⟨hlt, hvalue⟩ := hback
  have hall : readAll json.write = .ok json := by
    rw [readAll, hvalue]
    rfl
  rw [read, hall]
  rfl

end Json

end MarkerTemplate
