import RationaleVault.Library.JsonChars
import RationaleVault.Library.MarkerBlocks
import RationaleVault.Python
import RationaleVault.PythonNumber
import RationaleVault.PythonText

/-!
# Markdown stores

The Markdown providers of knowledge and of memories keep all records in one
text file. A record is written as JSON inside an HTML comment with a readable
summary behind it, and a search for such comments in the whole file reads the
records back. Adding a record reads the file, replaces the record with the same
id or puts the new one last, and writes the file again.
-/

/-! ## Values of declared types -/

namespace Json

def str? : Json → Option String
  | .atom (.str s) => some s
  | _ => none

def int? : Json → Option Int
  | .atom (.int n) => some n
  | _ => none

def float? : Json → Option FloatLit
  | .atom (.float x) => some x
  | _ => none

def strs? : Json → Option (List String)
  | .arr items => items.mapM str?
  | _ => none

def optStr? : Json → Option (Option String)
  | .atom .null => some none
  | .atom (.str s) => some (some s)
  | _ => none

/-- A list of texts. -/
def strs (xs : List String) : Json := .arr (xs.map .str)

/-- A text or `None`. -/
def optStr : Option String → Json
  | none => .null
  | some s => .str s

/-- Whether arithmetic with a float accepts the value. -/
def isNumber : Json → Bool
  | .atom a => a.number?.isSome
  | _ => false

@[simp] theorem str?_str (s : String) : str? (.str s) = some s := rfl

@[simp] theorem int?_int (n : Int) : int? (.int n) = some n := rfl

@[simp] theorem float?_float (x : FloatLit) : float? (.atom (.float x)) = some x := rfl

@[simp] theorem strs?_strs (xs : List String) : strs? (strs xs) = some xs := by
  rw [strs, strs?]
  induction xs with
  | nil => rfl
  | cons s rest ih => rw [List.map_cons, List.mapM_cons, ih]; rfl

@[simp] theorem optStr?_optStr (s : Option String) : optStr? (optStr s) = some s := by
  cases s <;> rfl

theorem texts_strs (xs : List String) : (strs xs).texts = xs := by
  rw [strs, texts]
  induction xs with
  | nil => rfl
  | cons s rest ih =>
      rw [List.map_cons, textsItems, ih]
      rfl

end Json

namespace RationaleVault

/-- The conversions between floats and texts. -/
structure FloatText where
  /-- The literal that `json.dumps` writes for a computed float. -/
  repr : ℚ → FloatLit
  /-- `f"{x:.2f}"`. -/
  fixed2 : ℚ → List Char
  /-- Whether `float(s)` returns. -/
  parses : String → Bool
  fixed2_chars : ∀ q, (fixed2 q).all Json.isNumberChar = true

theorem FloatText.not_mem_fixed2 (ft : FloatText) (q : ℚ) : '<' ∉ ft.fixed2 q := fun hmem =>
  absurd (List.all_eq_true.mp (ft.fixed2_chars q) _ hmem) (by decide)

/-- The texts of the floats zero and one. -/
def FloatText.zeroOne : FloatText where
  repr q := if q = 1 then .one else .zero
  fixed2 q := if q = 1 then ['1', '.', '0', '0'] else ['0', '.', '0', '0']
  parses s := s = "0.0" ∨ s = "1.0"
  fixed2_chars q := by split <;> decide

/-! ## The providers -/

/-- What a Markdown provider writes for a record, and how it reads it back. -/
structure MarkdownFormat (ρ : Type) where
  header : List Char
  /-- The word that marks the comments of the provider. -/
  name : List Char
  id : ρ → String
  version : ρ → Int
  content : ρ → String
  withVersion : ρ → Int → ρ
  toDict : ρ → JsonObj
  /-- The record of a decoded comment; `none` is an object that the code builds from values of
  other types than the declared ones. -/
  fromDict : (now : String) → JsonObj → Except Exc (Option ρ)
  /-- The summary behind the comment. -/
  summary : ρ → List Char
  /-- The exceptions after which the reader goes on with the next comment. -/
  caught : Exc → Bool
  header_plain : '<' ∉ header ∧ '\r' ∉ header
  name_ne_nil : name ≠ []
  name_plain : (name.all fun c => !PythonText.isSpace c && c != '<') = true
  id_withVersion : ∀ r v, id (withVersion r v) = id r
  withVersion_version : ∀ r, withVersion r (version r) = r

namespace MarkdownFormat

variable {ρ : Type} (F : MarkdownFormat ρ)

/-- `* **name**: value`. -/
def field (name : String) (value : List Char) : List Char :=
  ['*', ' ', '*', '*'] ++ name.toList ++ ['*', '*', ':', ' '] ++ value ++ ['\n']

/-- `", ".join(xs)`. -/
def joined (xs : List String) : List Char := [',', ' '].intercalate (xs.map String.toList)

theorem name_char {c : Char} (h : c ∈ F.name) : PythonText.isSpace c = false ∧ c ≠ '<' := by
  simpa using List.all_eq_true.mp F.name_plain c h

/-- `<!--\s*name\s*({.*?})\s*-->`. -/
def markers : MarkerBlocks.Format Char where
  space := PythonText.isSpace
  start := '<'
  opening := ['!', '-', '-']
  name := F.name
  left := '{'
  right := '}'
  closing := ['-', '-', '>']
  solid := by
    intro c hc
    simp only [List.mem_cons, List.mem_append, List.not_mem_nil, or_false] at hc
    rcases hc with rfl | rfl | rfl | hname | rfl | rfl | rfl
    · decide
    · decide
    · decide
    · exact (F.name_char hname).1
    · decide
    · decide
    · decide
  start_apart := by
    have hname : '<' ∉ F.name := fun h => (F.name_char h).2 rfl
    simp [hname]
  right_apart := by decide
  closing_ne_nil := by decide
  name_ne_nil := F.name_ne_nil

/-! ## Reading -/

/-- The text of the file, which is created with its header when it is missing. -/
def ensureFile (file : Option (List Char)) : List Char := file.getD F.header

/-- The record in a comment. Of two members with one key, `json.loads` keeps the later one. -/
def decode (now : String) (inner : List Char) : Except Exc (Option ρ) :=
  match Json.loads (String.ofList ('{' :: (inner ++ ['}']))) with
  | some (.obj d) => F.fromDict now d.reverse
  | some _ => .error .typeError  -- never reached, the text begins with a brace
  | none => .error .jsonDecodeError

/-- The loop over the comments. An exception that it does not catch ends it. The result is `none`
when an object with values of other types than the declared ones is among the records. -/
def readRecords : List (Except Exc (Option ρ)) → Option (List ρ)
  | [] => some []
  | .ok (some r) :: rest => (readRecords rest).map (r :: ·)
  | .ok none :: _ => none
  | .error e :: rest => if F.caught e then readRecords rest else some []

/-- All records of the file. -/
def getAll (file : Option (List Char)) (now : String) : Option (List ρ) :=
  F.readRecords ((F.markers.blocks (PythonText.universalNewlines (F.ensureFile file))).map
    (F.decode now))

/-! ## Writing -/

/-- A record as it is written: the comment and the summary. -/
def entry (r : ρ) : List Char :=
  ['<', '!', '-', '-', ' '] ++ F.name ++ ' ' :: Json.encode .default (.obj (F.toDict r)) ++
    [' ', '-', '-', '>'] ++ F.summary r

/-- The text that `_write_records(records)` writes. -/
def writeRecords (records : List ρ) : List Char := F.header ++ records.flatMap F.entry

/-- The record with the version it gets when it replaces `existing`. -/
def renumbered (existing r : ρ) : ρ :=
  if F.content existing ≠ F.content r then F.withVersion r (F.version existing + 1) else r

/-- The records after the loop of `add`: the first record with the id is replaced, and a record
with a new id is put last. -/
def upsert : List ρ → ρ → List ρ
  | [], r => [r]
  | x :: rest, r => if F.id x = F.id r then F.renumbered x r :: rest else x :: upsert rest r

/-- The file after a record has been added. -/
def add (file : Option (List Char)) (now : String) (r : ρ) : Option (List Char) :=
  (F.getAll file now).map fun records => F.writeRecords (F.upsert records r)

/-- The file after records have been added one after the other, each at its time. -/
def run (file : Option (List Char)) (calls : List (String × ρ)) : Option (Option (List Char)) :=
  calls.foldlM (fun file call => (F.add file call.1 call.2).map some) file

/-! ## Records that the file keeps -/

/-- The reader finds the comment of the record and no record in its summary: the JSON text has no
closing brace with `-->` behind it, and every comment in the summary is closed there and holds
nothing that can be decoded. -/
structure Framed (r : ρ) : Prop where
  comment : F.markers.closer (Json.inner .default (F.toDict r)) = none
  closed : F.markers.Closed (PythonText.universalNewlines (F.summary r))
  undecodable : ∀ inner ∈ F.markers.blocks (PythonText.universalNewlines (F.summary r)),
    ∀ now, ∃ e, F.decode now inner = .error e ∧ F.caught e = true

/-- The dictionary of a record is read back as the record. -/
def Reads (r : ρ) : Prop := ∀ now, F.fromDict now (F.toDict r).reverse = .ok (some r)

/-- A record that is read back whatever version it is stored under. -/
def Recoverable (r : ρ) : Prop := ∀ v, F.Framed (F.withVersion r v) ∧ F.Reads (F.withVersion r v)

variable {F} {records : List ρ} {r : ρ}

theorem Recoverable.self (h : F.Recoverable r) : F.Framed r ∧ F.Reads r := by
  have hversion := h (F.version r)
  rwa [F.withVersion_version] at hversion

theorem decode_toDict (h : F.Reads r) (now : String) :
    F.decode now (Json.inner .default (F.toDict r)) = .ok (some r) := by
  have hdumps : String.ofList ('{' :: (Json.inner .default (F.toDict r) ++ ['}'])) =
      Json.dumps .default (.obj (F.toDict r)) := by rw [Json.dumps, Json.encode_obj]
  rw [decode, hdumps, Json.loads_dumps]
  exact h now

theorem entry_eq (r : ρ) :
    F.entry r = F.markers.write ' ' (Json.inner .default (F.toDict r)) ++ F.summary r := by
  rw [entry, Json.encode_obj]
  simp only [MarkerBlocks.Format.write, markers, List.cons_append, List.nil_append,
    List.append_assoc]

theorem carriageReturn_not_mem_write (r : ρ) :
    '\r' ∉ F.markers.write ' ' (Json.inner .default (F.toDict r)) := by
  have hname : '\r' ∉ F.name := fun h => absurd (F.name_char h).1 (by decide)
  have hjson : '\r' ∉ Json.encode .default (.obj (F.toDict r)) :=
    fun h => absurd (Json.le_toNat_of_mem_encode h) (by decide)
  rw [Json.encode_obj] at hjson
  simp only [List.mem_cons, List.mem_append, not_or] at hjson
  simp [MarkerBlocks.Format.write, markers, hname, hjson.2.1]

/-- What is read of a written file. -/
theorem universalNewlines_writeRecords (records : List ρ) :
    PythonText.universalNewlines (F.writeRecords records) = F.header ++
      records.flatMap fun r => F.markers.write ' ' (Json.inner .default (F.toDict r)) ++
        PythonText.universalNewlines (F.summary r) := by
  rw [writeRecords, PythonText.universalNewlines_append_left F.header_plain.2]
  congr 1
  induction records with
  | nil => rfl
  | cons r rest ih =>
      have hnext : '\n' ∉ (rest.flatMap F.entry).head? := by
        cases rest with
        | nil => simp
        | cons x rest => simp [entry_eq, MarkerBlocks.Format.write, markers]
      rw [List.flatMap_cons, List.flatMap_cons, entry_eq, List.append_assoc,
        PythonText.universalNewlines_append_left (carriageReturn_not_mem_write r),
        PythonText.universalNewlines_append hnext, ih, List.append_assoc]

theorem readRecords_append_of_caught {ds es : List (Except Exc (Option ρ))}
    (h : ∀ d ∈ ds, ∃ e, d = .error e ∧ F.caught e = true) :
    F.readRecords (ds ++ es) = F.readRecords es := by
  induction ds with
  | nil => rfl
  | cons d rest ih =>
      obtain ⟨e, rfl, hcaught⟩ := h d List.mem_cons_self
      rw [List.cons_append, readRecords, if_pos hcaught]
      exact ih fun x hx => h x (List.mem_cons_of_mem _ hx)

/-- A file that was written for recoverable records is read back as these records. -/
theorem getAll_writeRecords (h : ∀ r ∈ records, F.Framed r ∧ F.Reads r) (now : String) :
    F.getAll (some (F.writeRecords records)) now = some records := by
  have hblocks : F.markers.blocks (PythonText.universalNewlines (F.writeRecords records)) =
      records.flatMap fun r => Json.inner .default (F.toDict r) ::
        F.markers.blocks (PythonText.universalNewlines (F.summary r)) := by
    have hhead : ∀ d ∈ (records.flatMap fun r =>
        F.markers.write ' ' (Json.inner .default (F.toDict r)) ++
          PythonText.universalNewlines (F.summary r)).head?, d = F.markers.start := by
      cases records with
      | nil => simp
      | cons r rest => simp [MarkerBlocks.Format.write]
    have hheader : F.markers.start ∉ F.header := F.header_plain.1
    rw [universalNewlines_writeRecords,
      MarkerBlocks.Format.blocks_append (MarkerBlocks.Format.closed_of_not_mem hheader) hhead,
      MarkerBlocks.Format.blocks_of_not_mem hheader, List.nil_append]
    have hblank : F.markers.space ' ' = true := rfl
    exact MarkerBlocks.Format.blocks_flatMap hblank
      fun r hr => ⟨(h r hr).1.comment, (h r hr).1.closed⟩
  rw [getAll, ensureFile, Option.getD_some, hblocks]
  clear hblocks
  induction records with
  | nil => rfl
  | cons r rest ih =>
      obtain ⟨hframed, hreads⟩ := h r List.mem_cons_self
      have hsummary : ∀ d ∈ (F.markers.blocks (PythonText.universalNewlines (F.summary r))).map
          (F.decode now), ∃ e, d = .error e ∧ F.caught e = true := by
        intro d hd
        obtain ⟨inner, hinner, rfl⟩ := List.mem_map.mp hd
        exact hframed.undecodable inner hinner now
      rw [List.flatMap_cons, List.cons_append, List.map_cons, List.map_append,
        decode_toDict hreads, readRecords, readRecords_append_of_caught hsummary,
        ih fun x hx => h x (List.mem_cons_of_mem r hx)]
      rfl

/-! ## Records without angle brackets -/

theorem not_mem_field {name : String} {value : List Char} (hname : '<' ∉ name.toList)
    (hvalue : '<' ∉ value) : '<' ∉ field name value := by
  simp [field, hname, hvalue]

theorem not_mem_joined {xs : List String} (h : ∀ s ∈ xs, '<' ∉ s.toList) : '<' ∉ joined xs := by
  induction xs with
  | nil => exact List.not_mem_nil
  | cons s rest ih =>
      obtain ⟨hs, hrest⟩ := List.forall_mem_cons.mp h
      cases rest with
      | nil => simpa [joined, List.intercalate] using hs
      | cons t rest =>
          have hsplit : joined (s :: t :: rest) = s.toList ++ [',', ' '] ++ joined (t :: rest) := by
            simp [joined, List.intercalate]
          rw [hsplit]
          exact List.not_mem_append (List.not_mem_append hs (by decide)) (ih hrest)

theorem not_mem_number (n : Int) : '<' ∉ Json.encodeInt n :=
  Json.not_mem_encodeInt (by decide) (by decide) n

theorem framed_of_plain (hdict : ∀ s ∈ (Json.obj (F.toDict r)).texts, '>' ∉ s.toList)
    (hsummary : '<' ∉ F.summary r) : F.Framed r := by
  have hstart : F.markers.start ∉ PythonText.universalNewlines (F.summary r) := by
    intro hmem
    rcases PythonText.mem_universalNewlines hmem with hmem | heq
    · exact hsummary hmem
    · cases heq
  constructor
  · have hjson : '>' ∉ Json.encode .default (.obj (F.toDict r)) :=
      Json.not_mem_encode (by decide) (by decide) hdict
    apply MarkerBlocks.Format.closer_eq_none (c := '>')
    · simp [markers]
    · rw [Json.encode_obj] at hjson
      exact fun hmem => hjson (by simp [hmem])
  · exact MarkerBlocks.Format.closed_of_not_mem hstart
  · rw [MarkerBlocks.Format.blocks_of_not_mem hstart]
    simp

/-! ## Adding records -/

variable (F) in
/-- The record as it is stored among the records. -/
def stored (records : List ρ) (r : ρ) : ρ :=
  match records.find? fun x => F.id x = F.id r with
  | some existing => F.renumbered existing r
  | none => r

theorem renumbered_eq (existing r : ρ) : ∃ v, F.renumbered existing r = F.withVersion r v := by
  rw [renumbered]
  split
  · exact ⟨_, rfl⟩
  · exact ⟨F.version r, (F.withVersion_version r).symm⟩

theorem id_renumbered (existing r : ρ) : F.id (F.renumbered existing r) = F.id r := by
  obtain ⟨v, hv⟩ := renumbered_eq existing r
  rw [hv, F.id_withVersion]

theorem stored_eq (records : List ρ) (r : ρ) : ∃ v, F.stored records r = F.withVersion r v := by
  rw [stored]
  split
  · exact renumbered_eq _ r
  · exact ⟨F.version r, (F.withVersion_version r).symm⟩

theorem id_stored (records : List ρ) (r : ρ) : F.id (F.stored records r) = F.id r := by
  obtain ⟨v, hv⟩ := stored_eq records r
  rw [hv, F.id_withVersion]

/-- The records after an addition are the new one and the others. -/
theorem mem_upsert (hids : (records.map F.id).Nodup) {x : ρ} :
    x ∈ F.upsert records r ↔ x = F.stored records r ∨ x ∈ records ∧ F.id x ≠ F.id r := by
  induction records with
  | nil => simp [upsert, stored]
  | cons y rest ih =>
      rw [List.map_cons, List.nodup_cons] at hids
      by_cases hy : F.id y = F.id r
      · have hstored : F.stored (y :: rest) r = F.renumbered y r := by
          rw [stored, List.find?_cons_of_pos (by simpa using hy)]
        have hrest : ∀ x ∈ rest, F.id x ≠ F.id r := fun x hx heq =>
          hids.1 (List.mem_map.mpr ⟨x, hx, heq.trans hy.symm⟩)
        rw [upsert, if_pos hy, hstored]
        grind
      · have hstored : F.stored (y :: rest) r = F.stored rest r := by
          rw [stored, List.find?_cons_of_neg (by simpa using hy)]
          rfl
        rw [upsert, if_neg hy, hstored, List.mem_cons, ih hids.2]
        grind

theorem nodup_upsert (hids : (records.map F.id).Nodup) (r : ρ) :
    ((F.upsert records r).map F.id).Nodup := by
  induction records with
  | nil => simp [upsert]
  | cons y rest ih =>
      rw [List.map_cons, List.nodup_cons] at hids
      rw [upsert]
      by_cases hy : F.id y = F.id r
      · rw [if_pos hy, List.map_cons, List.nodup_cons, id_renumbered, ← hy]
        exact hids
      · rw [if_neg hy, List.map_cons, List.nodup_cons]
        refine ⟨fun hmem => ?_, ih hids.2⟩
        obtain ⟨x, hx, hid⟩ := List.mem_map.mp hmem
        rcases (mem_upsert hids.2).mp hx with rfl | ⟨hrest, -⟩
        · exact hy (hid.symm.trans (id_stored rest r))
        · exact hids.1 (List.mem_map.mpr ⟨x, hrest, hid⟩)

variable (F) in
/-- The records are what was added: one record for each id, namely the last one added with that
id under the version number that its addition gave it. -/
structure Holds (added records : List ρ) : Prop where
  ids_nodup : (records.map F.id).Nodup
  kept : ∀ r ∈ added, ∃ x ∈ records, F.id x = F.id r
  latest : ∀ x ∈ records, ∃ earlier r later, added = earlier ++ r :: later ∧
    (∀ y ∈ later, F.id y ≠ F.id r) ∧ x = F.stored (earlier.foldl F.upsert []) r

theorem holds_foldl (added : List ρ) : F.Holds added (added.foldl F.upsert []) := by
  induction added using List.reverseRecOn with
  | nil => exact ⟨by simp, by simp, by simp⟩
  | append_singleton earlier r ih =>
      rw [List.foldl_concat]
      refine ⟨nodup_upsert ih.ids_nodup r, fun y hy => ?_, fun x hx => ?_⟩
      · by_cases hid : F.id y = F.id r
        · exact ⟨_, (mem_upsert ih.ids_nodup).mpr (Or.inl rfl), (id_stored _ r).trans hid.symm⟩
        · have hy : y ∈ earlier := by
            rcases List.mem_append.mp hy with hy | hy
            · exact hy
            · exact absurd (congrArg F.id (List.mem_singleton.mp hy)) hid
          obtain ⟨x, hx, hxy⟩ := ih.kept y hy
          exact ⟨x, (mem_upsert ih.ids_nodup).mpr (Or.inr ⟨hx, hxy ▸ hid⟩), hxy⟩
      · rcases (mem_upsert ih.ids_nodup).mp hx with rfl | ⟨hx, hid⟩
        · exact ⟨earlier, r, [], rfl, by simp, rfl⟩
        · obtain ⟨before, s, later, rfl, hlater, rfl⟩ := ih.latest x hx
          refine ⟨before, s, later ++ [r], by simp, fun y hy => ?_, rfl⟩
          rcases List.mem_append.mp hy with hy | hy
          · exact hlater y hy
          · rw [List.mem_singleton.mp hy]
            rw [id_stored] at hid
            exact hid.symm

theorem forall_mem_upsert {P : ρ → Prop} (hrecords : ∀ x ∈ records, P x)
    (hr : P (F.stored records r)) : ∀ x ∈ F.upsert records r, P x := by
  induction records with
  | nil => simpa [upsert, stored] using hr
  | cons y rest ih =>
      obtain ⟨hy, hrest⟩ := List.forall_mem_cons.mp hrecords
      rw [upsert]
      by_cases hid : F.id y = F.id r
      · rw [stored, List.find?_cons_of_pos (by simpa using hid)] at hr
        rw [if_pos hid]
        exact List.forall_mem_cons.mpr ⟨hr, hrest⟩
      · rw [stored, List.find?_cons_of_neg (by simpa using hid)] at hr
        rw [if_neg hid]
        exact List.forall_mem_cons.mpr ⟨hy, ih hrest hr⟩

variable (F) in
/-- Reading the file gives the records, and each of them is read as it is written. -/
structure Keeps (file : Option (List Char)) (records : List ρ) : Prop where
  read : ∀ now, F.getAll file now = some records
  legible : ∀ x ∈ records, F.Framed x ∧ F.Reads x

/-- A missing file holds no records. -/
theorem keeps_none : F.Keeps none [] := by
  refine ⟨fun now => ?_, by simp⟩
  have hempty : F.getAll (some (F.writeRecords [])) now = some [] :=
    getAll_writeRecords (by simp) now
  rwa [writeRecords, List.flatMap_nil, List.append_nil] at hempty

/-- Adding a record changes the records of the file as `upsert` does. -/
theorem Keeps.add {file : Option (List Char)} (h : F.Keeps file records)
    (hr : F.Framed (F.stored records r) ∧ F.Reads (F.stored records r)) (now : String) :
    ∃ text, F.add file now r = some text ∧ F.Keeps (some text) (F.upsert records r) := by
  have hupsert := forall_mem_upsert h.legible hr
  refine ⟨F.writeRecords (F.upsert records r), ?_, getAll_writeRecords hupsert, hupsert⟩
  rw [MarkdownFormat.add, h.read, Option.map_some]

theorem Recoverable.stored (h : F.Recoverable r) (records : List ρ) :
    F.Framed (F.stored records r) ∧ F.Reads (F.stored records r) := by
  obtain ⟨v, hv⟩ := stored_eq records r
  exact hv ▸ h v

theorem keeps_run {calls : List (String × ρ)} (hcalls : ∀ call ∈ calls, F.Recoverable call.2)
    {file : Option (List Char)} (h : F.Keeps file records) :
    ∃ file', F.run file calls = some file' ∧
      F.Keeps file' ((calls.map Prod.snd).foldl F.upsert records) := by
  induction calls generalizing file records with
  | nil => exact ⟨file, rfl, h⟩
  | cons call rest ih =>
      obtain ⟨hcall, hrest⟩ := List.forall_mem_cons.mp hcalls
      obtain ⟨text, hadd, htext⟩ := h.add (hcall.stored records) call.1
      obtain ⟨file', hrun, hkeeps⟩ := ih hrest htext
      refine ⟨file', ?_, hkeeps⟩
      rw [run, List.foldlM_cons, hadd]
      exact hrun

/-- After any additions of recoverable records the file holds what was added. -/
theorem holds_run {calls : List (String × ρ)} (h : ∀ call ∈ calls, F.Recoverable call.2) :
    ∃ file records, F.run none calls = some file ∧ (∀ now, F.getAll file now = some records) ∧
      F.Holds (calls.map Prod.snd) records := by
  obtain ⟨file, hrun, hkeeps⟩ := keeps_run h keeps_none
  exact ⟨file, _, hrun, hkeeps.read, holds_foldl _⟩

end MarkdownFormat

end RationaleVault
