import Schematic.Proofs.Yaml.Keys
import Schematic.Proofs.Yaml.Spelling
import Schematic.Proofs.Yaml.Seen

/-!
# Reading the words of plain data

Plain data in block style is taken for tokens that say what is seen of it, if no simple key in it is
wider than 1024 characters; otherwise the reader goes on up to such a key and fails there. The proof
follows the writer: it goes through the data, and for each part from the place where the part starts
to the line after it.
-/

namespace Schematic.Yaml.TokenReader

open Source
open NodeReader (Says SaysPart SaysItem SaysItems SaysEntry SaysEntries says_scalar says_text
  says_emptySequence says_emptyMapping saysItems_nil saysEntries_nil)

/-- A reader takes what is in front of it for tokens with a property, and goes on at the start of a
line. -/
def LeadsTo (P : List Token → Prop) (r : TokenReader) (n : Nat) (next : Text) (words : List Token)
    (indent : Int) (outers : List Int) : Prop :=
  ∃ ts m, P ts ∧ m.column = n ∧ Runs r (inBlock m next (ts.reverse ++ words) indent outers true)

section

variable {P Q : List Token → Prop} {r : TokenReader} {m : Mark} {t next : Text} {n : Nat}
  {words ts : List Token} {indent : Int} {outers : List Int} {keyAllowed : Bool}

lemma LeadsTo.imp (h : LeadsTo P r n next words indent outers) (himp : ∀ ts, P ts → Q ts) :
    LeadsTo Q r n next words indent outers := by
  obtain ⟨ts, m, hts, hm, hruns⟩ := h
  exact ⟨ts, m, himp ts hts, hm, hruns⟩

/-- Tokens in front of others. -/
lemma LeadsTo.append (ts : List Token)
    (h : LeadsTo P r n next (ts.reverse ++ words) indent outers) :
    LeadsTo (fun us => ∃ vs, us = ts ++ vs ∧ P vs) r n next words indent outers := by
  obtain ⟨vs, m, hvs, hm, hruns⟩ := h
  refine ⟨ts ++ vs, m, ⟨vs, rfl, hvs⟩, hm, ?_⟩
  rwa [List.reverse_append, List.append_assoc]

/-- The end of the block that was opened for some tokens. -/
lemma LeadsTo.close {word : Word} {column : Int} (hnext : FollowsLine n next)
    (hn : (n : Int) < column)
    (h : LeadsTo P r n next (⟨word, m, m⟩ :: words) column (indent :: outers)) :
    LeadsTo (fun us => ∃ vs place, us = ⟨word, m, m⟩ :: (vs ++ [⟨.blockEnd, place, place⟩]) ∧ P vs)
      r n next words indent outers := by
  obtain ⟨vs, m', hvs, hm', hruns⟩ := h
  have hmark : ((ofText m' next).mark.column : Int) < column := by
    rw [hnext.mark_eq, hm']
    exact hn
  obtain ⟨place, hend⟩ : ∃ place, Runs
      (inBlock m' next (vs.reverse ++ ⟨word, m, m⟩ :: words) column (indent :: outers) true)
      (inBlock m' next (⟨.blockEnd, place, place⟩ :: (vs.reverse ++ ⟨word, m, m⟩ :: words)) indent
        outers true) :=
    Runs.blockEnd (hnext.imp_right And.right) hmark (by omega)
  refine ⟨_, m', ⟨vs, place, rfl, hvs⟩, hm', ?_⟩
  have hwords : (⟨word, m, m⟩ :: (vs ++ [⟨.blockEnd, place, place⟩])).reverse ++ words
      = ⟨.blockEnd, place, place⟩ :: (vs.reverse ++ ⟨word, m, m⟩ :: words) := by simp
  rw [hwords]
  exact hruns.trans hend

lemma LeadsTo.leadsIf {p : Prop} (h : LeadsTo P r n next words indent outers) (hp : p) :
    LeadsIf p (LeadsTo P · n next words indent outers) r :=
  ⟨fun _ => ⟨r, h, .refl r⟩, fun hnot => absurd hp hnot⟩

lemma LeadsIf.leadsTo {p : Prop} (h : LeadsIf p (LeadsTo P · n next words indent outers) r)
    (hp : p) :
    LeadsTo P r n next words indent outers := by
  obtain ⟨s, ⟨ts, m, hts, hm, hruns'⟩, hruns⟩ := h.1 hp
  exact ⟨ts, m, hts, hm, hruns.trans hruns'⟩

/-- Tokens after others, each under a condition. -/
lemma LeadsIf.andThen {p q : Prop} {k : Nat} (h : LeadsIf p (LeadsTo P · k t words indent outers) r)
    (h' : ∀ m words, m.column = k → LeadsIf q (LeadsTo Q · n next words indent outers)
      (inBlock m t words indent outers true)) :
    LeadsIf (p ∧ q) (LeadsTo (fun ts => ∃ us vs, ts = us ++ vs ∧ P us ∧ Q vs) · n next words indent
      outers) r := by
  refine h.bind fun s hs => ?_
  obtain ⟨us, m, hus, hm, hruns⟩ := hs
  refine LeadsIf.of_runs hruns ((h' m (us.reverse ++ words) hm).imp fun s' hs' => ?_)
  refine (hs'.append us).imp ?_
  rintro _ ⟨vs, rfl, hvs⟩
  exact ⟨us, vs, rfl, hus, hvs⟩

/-! ### Scalars -/

/-- A word that is written as it stands. -/
lemma leadsTo_spelling {v : Value} (h : IsSpelling t v) (words : List Token) (outers : List Int)
    (hm : indent ≤ m.column) (hkey : keyAllowed = true → indent ≠ m.column)
    (hn : (n : Int) ≤ indent) (hnext : FollowsLine n next) :
    LeadsTo (Says · v) (inBlock m (t ++ (newLine n ++ next)) words indent outers keyAllowed) n next
      words indent outers := by
  obtain ⟨stop, hruns⟩ := Runs.plain words outers false 0 h.isPlainText
    h.startsWithIndicator (Nat.succ_pos indent.toNat) (by omega) hm hkey hn hnext
  rw [foldWords_eq_self h.isPlainText.isLine] at hruns
  exact ⟨[⟨.scalar t true, m, stop⟩], _, says_scalar (h.scalarValue_eq m),
    Mark.column_after_newLine n, hruns⟩

/-- A text on a line is taken for the text that is seen. -/
lemma leadsTo_text {ind column : Nat} (t : Text) (words : List Token) (outers : List Int)
    (hind : 0 < ind) (hindent : indent + 1 ≤ ind) (hcolumn : ind ≤ column) (hm : indent ≤ m.column)
    (hkey : keyAllowed = true → indent ≠ m.column) (hn : (n : Int) ≤ indent)
    (hnext : FollowsLine n next) :
    LeadsTo (Says · (.text (seenText true ind t)))
      (inBlock m (scalar true ind column t ++ (newLine n ++ next)) words indent outers keyAllowed) n
      next words indent outers := by
  obtain ⟨isPlain, stop, htag, hruns⟩ := Runs.text words outers true t hind hindent
    hcolumn hm hkey hn hnext
  exact ⟨[⟨.scalar _ isPlain, m, stop⟩], _, says_text htag, Mark.column_after_newLine n, hruns⟩

/-- An array without items is taken for a list. -/
lemma leadsTo_emptyArray (words : List Token) (outers : List Int)
    (hm : indent ≤ m.column) (hkey : keyAllowed = true → indent ≠ m.column)
    (hnext : FollowsLine n next) :
    LeadsTo (Says · (.list [])) (inBlock m ("[]" ++ (newLine n ++ next)) words indent outers
      keyAllowed) n next words indent outers := by
  obtain ⟨start, stop, hruns⟩ := Runs.emptyArray words outers hm hkey hnext
  exact ⟨[⟨.flowSequenceStart, m, start⟩, ⟨.flowSequenceEnd, start, stop⟩], _, says_emptySequence,
    Mark.column_after_newLine n, hruns⟩

/-- An object without entries is taken for a map. -/
lemma leadsTo_emptyObject (words : List Token) (outers : List Int)
    (hm : indent ≤ m.column) (hkey : keyAllowed = true → indent ≠ m.column)
    (hnext : FollowsLine n next) :
    LeadsTo (Says · (.map [])) (inBlock m ("\x7b\x7d" ++ (newLine n ++ next)) words indent outers
      keyAllowed) n next words indent outers := by
  obtain ⟨start, stop, hruns⟩ := Runs.emptyObject words outers hm hkey hnext
  exact ⟨[⟨.flowMappingStart, m, start⟩, ⟨.flowMappingEnd, start, stop⟩], _, says_emptyMapping,
    Mark.column_after_newLine n, hruns⟩

/-- The data is no array and no object with something in it. -/
inductive IsInPlace : Json → Prop
  | null : IsInPlace .null
  | bool (b : Bool) : IsInPlace (.bool b)
  | int (k : Int) : IsInPlace (.int k)
  | float (x : Double) : IsInPlace (.float x)
  | text (t : Text) : IsInPlace (.text t)
  | emptyArray : IsInPlace (.array [])
  | emptyObject : IsInPlace (.object [])

/-- The text of such data, which stands at a column; further lines are indented by `ind`. -/
def inPlace (ind column : Nat) : Json → Text
  | .null => "null"
  | .bool b => if b then "true" else "false"
  | .int n => Text.ofInt n
  | .float x => numbers.text x
  | .text t => scalar true ind column t
  | .array _ => "[]"
  | .object _ => "\x7b\x7d"

lemma IsInPlace.hasNarrowNames {j : Json} (h : IsInPlace j) : j.Every Json.HasNarrowNames := by
  cases h <;> simp [Json.Every, Json.EveryItem, Json.EveryEntry, Json.HasNarrowNames]

lemma block_inPlace {j : Json} (h : IsInPlace j) (col : Nat) : block col j = inPlace col col j := by
  cases h <;> rfl

lemma keyed_inPlace {j : Json} (h : IsInPlace j) (col column : Nat) :
    keyed col column j = .char ' ' :: inPlace (col + 2) (column + 1) j := by
  cases h with
  | bool b => cases b <;> rfl
  | _ => rfl

/-- What stands in one place is taken for what is seen of it. -/
lemma leadsTo_inPlace {ind column : Nat} {j : Json} (h : IsInPlace j) (hj : j.Every Json.IsRegular)
    (items : Nat) (words : List Token) (outers : List Int) (hind : 0 < ind)
    (hindent : indent + 1 ≤ ind) (hcolumn : ind ≤ column) (hm : indent ≤ m.column)
    (hkey : keyAllowed = true → indent ≠ m.column) (hn : (n : Int) ≤ indent)
    (hnext : FollowsLine n next) :
    LeadsTo (Says · (seen items ind j.toValue))
      (inBlock m (inPlace ind column j ++ (newLine n ++ next)) words indent outers keyAllowed)
      n next words indent outers := by
  cases h with
  | null => exact leadsTo_spelling isSpelling_null words outers hm hkey hn hnext
  | bool b =>
    cases b with
    | true => exact leadsTo_spelling isSpelling_true words outers hm hkey hn hnext
    | false => exact leadsTo_spelling isSpelling_false words outers hm hkey hn hnext
  | int k => exact leadsTo_spelling (isSpelling_int hj.isShort) words outers hm hkey hn hnext
  | float x => exact leadsTo_spelling (isSpelling_float hj.isFinite) words outers hm hkey hn hnext
  | text t => exact leadsTo_text t words outers hind hindent hcolumn hm hkey hn hnext
  | emptyArray => exact leadsTo_emptyArray words outers hm hkey hnext
  | emptyObject => exact leadsTo_emptyObject words outers hm hkey hnext

/-! ### Lines -/

lemma lines_cons_cons (indent : Nat) (t u : Text) (ls : List Text) :
    lines indent (t :: u :: ls) = t ++ (newLine indent ++ lines indent (u :: ls)) := by
  simp [lines, Text.join]

lemma lines_singleton (indent : Nat) (t : Text) : lines indent [t] = t := by
  simp [lines, Text.join]

/-- The lines of the first of some items or entries start what is written for them. -/
lemma exists_lines_eq (indent : Nat) (t : Text) (ls : List Text) :
    ∃ u, lines indent (t :: ls) = t ++ u := by
  cases ls with
  | nil => exact ⟨[], by rw [lines_singleton, List.append_nil]⟩
  | cons u ls => exact ⟨_, lines_cons_cons indent t u ls⟩

lemma startsLine_items (col : Nat) (j : Json) (js : List Json) (rest : Text) :
    StartsLine (lines col (itemLines col (j :: js)) ++ rest) := by
  obtain ⟨u, hu⟩ := exists_lines_eq col ("- " ++ block (col + 2) j) (itemLines col js)
  rw [itemLines, hu]
  exact startsLine_mark (c := '-') (.inl rfl)

/-- The first item is followed by a line for the others. -/
lemma lines_itemLines_cons_cons (col : Nat) (j j' : Json) (js : List Json) (rest : Text) :
    lines col (itemLines col (j :: j' :: js)) ++ rest
      = "- " ++ block (col + 2) j
        ++ (newLine col ++ (lines col (itemLines col (j' :: js)) ++ rest)) := by
  rw [itemLines, itemLines, lines_cons_cons, ← itemLines]
  simp only [List.append_assoc]

def entryText (col : Nat) (name : Text) (j : Json) : Text :=
  if isSimpleKey name then
    simpleKey col name ++ ":" ++ keyed col (col + (simpleKey col name).length + 1) j
  else
    "? " ++ scalar true (col + 2) (col + 2) name ++ newLine col ++ ": " ++ block (col + 2) j

lemma entryLines_cons (col : Nat) (name : Text) (j : Json) (es : List (Text × Json)) :
    entryLines col ((name, j) :: es) = entryText col name j :: entryLines col es := by
  rw [entryLines]
  rfl

/-- The first entry is followed by a line for the others. -/
lemma lines_entryLines_cons_cons (col : Nat) (e : Text × Json) (name : Text) (j : Json)
    (es : List (Text × Json)) (rest : Text) :
    lines col (entryLines col (e :: (name, j) :: es)) ++ rest
      = entryText col e.1 e.2 ++
          (newLine col ++ (lines col (entryLines col ((name, j) :: es)) ++ rest)) := by
  rw [entryLines_cons col e.1, entryLines_cons, lines_cons_cons]
  simp only [List.append_assoc]

/-- Entries start a line, by a name or a question mark. -/
lemma startsLine_entries (col : Nat) (name : Text) (j : Json) (es : List (Text × Json))
    (rest : Text) : StartsLine (lines col (entryLines col ((name, j) :: es)) ++ rest) := by
  obtain ⟨u, hu⟩ := exists_lines_eq col (entryText col name j) (entryLines col es)
  rw [entryLines_cons, hu, entryText]
  split
  case isTrue =>
    have hline := startsLine_simpleKey col name
      (keyed col (col + (simpleKey col name).length + 1) j ++ (u ++ rest))
    simpa [Text.ofString] using hline
  case isFalse =>
    simp only [List.append_assoc]
    exact startsLine_mark (c := '?') (.inr (.inl rfl))

/-- What comes after the colon of a simple key starts with a blank or on a new line. -/
lemma atBlank_keyed {col column : Nat} (j : Json) (rest : Text) (m : Mark) :
    (ofText m (keyed col column j ++ rest)).atBlank = true := by
  have hblank (t : Text) : (ofText m (" " ++ t)).atBlank = true := rfl
  match j with
  | .null => exact hblank _
  | .bool true => exact hblank _
  | .bool false => exact hblank _
  | .int k => exact hblank _
  | .float x => exact hblank _
  | .text t => exact hblank _
  | .array [] => exact hblank _
  | .object [] => exact hblank _
  | .array (j :: js) => rfl
  | .object ((name, j) :: es) => rfl

/-! ### Items and entries -/

/-- An item after its dash. -/
lemma LeadsIf.item {p : Prop} {v : Value} (words : List Token) (outers : List Int)
    (hm : indent ≤ m.column)
    (h : ∀ m' words, m'.column = m.column + 2 →
      LeadsIf p (LeadsTo (Says · v) · n next words m.column (outersAt m indent outers))
        (inBlock m' (t ++ (newLine n ++ next)) words m.column (outersAt m indent outers) true)) :
    LeadsIf p
      (LeadsTo (SaysItem · v) · n next (opening .blockSequenceStart m indent ++ words) m.column
        (outersAt m indent outers))
      (inBlock m ("- " ++ t ++ (newLine n ++ next)) words indent outers true) := by
  have hcolumn : (m.after "- ").column = m.column + 2 :=
    Mark.column_after_of_isLine (t := "- ") (by decide) m
  have hdash := Runs.dash words outers (t ++ (newLine n ++ next)) hm
  rw [List.append_assoc]
  refine LeadsIf.of_runs hdash ((h _ _ hcolumn).imp fun s hs => ?_)
  refine (hs.append [⟨.blockEntry, m, m.next '-'⟩]).imp ?_
  rintro _ ⟨us, rfl, hus⟩
  exact hus.saysItem m (m.next '-')

/-- The words for a key and for the colon after it. -/
def IsKey (name : Text) (ts : List Token) : Prop :=
  ∃ (isPlain : Bool) (a b c d e f : Mark), (isPlain = true → Tag.ofPlain name = .text) ∧
    ts = [⟨.key, a, b⟩, ⟨.scalar name isPlain, c, d⟩, ⟨.value, e, f⟩]

lemma IsKey.saysEntry {name : Text} {v : Value} {us : List Token} (h : IsKey name ts)
    (hus : SaysPart us v) : SaysEntry (ts ++ us) (.text name, v) := by
  obtain ⟨isPlain, a, b, c, d, e, f, htag, rfl⟩ := h
  exact hus.saysEntry htag

/-- A simple key and its colon, where the key is not too wide. -/
lemma leadsIf_beside {name : Text} {col : Nat} (words : List Token) (outers : List Int)
    (hname : isSimpleKey name = true) (hcol : m.column = col) (hm : indent ≤ m.column)
    (ht : ∀ m, (ofText m t).atBlank = true) :
    LeadsIf (keyWidth name ≤ 1024)
      (fun r => ∃ ts m', IsKey name ts ∧ m.column ≤ m'.column ∧ r = inBlock m' t
        (ts.reverse ++ (opening .blockMappingStart m indent ++ words)) m.column
          (outersAt m indent outers) false)
      (inBlock m (Yaml.simpleKey col name ++ ":" ++ t) words indent outers true) := by
  have hline := isLine_simpleKey col hname
  have hcolumn : m.column ≤ ((m.after (Yaml.simpleKey col name)).next ':').column := by
    rw [Mark.next_of_printable (by decide) (by decide), Mark.after_of_isLine hline]
    dsimp only
    omega
  have htext : Yaml.simpleKey col name ++ ":" ++ t = Yaml.simpleKey col name ++ .char ':' :: t := by
    simp [Text.ofString]
  rw [htext]
  refine ⟨fun hwidth => ?_, fun hwide => ?_⟩
  · obtain ⟨isPlain, stop, stop', htag, hruns⟩ :=
      Runs.simpleKey (i := col) words outers hname hwidth ht hm (by omega)
    exact ⟨_, ⟨_, _, ⟨isPlain, _, _, _, _, _, _, htag, rfl⟩, hcolumn, rfl⟩, hruns⟩
  · exact Fails.simpleKey words outers hname (Nat.lt_of_not_le hwide) ht hm (by omega)

/-- A key that is marked as a key, and its colon. -/
lemma Runs.below {col : Nat} (name : Text) (words : List Token) (outers : List Int)
    (hcol : m.column = col) (hm : indent ≤ m.column) :
    ∃ ts m', IsKey (seenText true (col + 2) name) ts ∧ m'.column = m.column + 2 ∧
      Runs
        (inBlock m ("? " ++ scalar true (col + 2) (col + 2) name ++ newLine col ++ ": " ++ t) words
          indent outers true)
        (inBlock m' t (ts.reverse ++ (opening .blockMappingStart m indent ++ words)) m.column
          (outersAt m indent outers) true) := by
  have htwo {m : Mark} {t : Text} (ht : IsLine t) (hlength : t.length = 2) :
      (m.after t).column = m.column + 2 := by
    rw [Mark.column_after_of_isLine ht, hlength]
  -- The question mark, then the name on its own, then the colon on the next line.
  have hquestion := Runs.question words outers (scalar true (col + 2) (col + 2) name ++
    (newLine col ++ (": " ++ t))) hm
  have hcolumn : (m.after "? ").column = m.column + 2 := htwo (by decide) rfl
  have hline : FollowsLine col (": " ++ t) := .inl (startsLine_mark (.inr (.inr rfl)))
  have hindent : (m.column : Int) + 1 ≤ (col + 2 : Nat) := by omega
  have hkey : true = true → (m.column : Int) ≠ (m.after "? ").column := by omega
  obtain ⟨isPlain, stop, htag, htext⟩ := Runs.text (⟨.key, m, m.next '?'⟩ ::
    (opening .blockMappingStart m indent ++ words)) (outersAt m indent outers) true name
    (Nat.succ_pos (col + 1)) hindent (Nat.le_refl _) (by omega) hkey (by omega) hline
  let m' := ((m.after "? ").after (scalar true (col + 2) (col + 2) name)).after (newLine col)
  have hm' : m'.column = m.column := by rw [Mark.column_after_newLine, hcol]
  have hcolon :=
    Runs.colon (m := m') (⟨.scalar (seenText true (col + 2) name) isPlain, m.after "? ", stop⟩
      :: ⟨.key, m, m.next '?'⟩ :: (opening .blockMappingStart m indent ++ words))
      (outersAt m indent outers) t
  rw [hm'] at hcolon
  have hcolumn' : (m'.after ": ").column = m.column + 2 := by
    rw [htwo (by decide) rfl, hm']
  have hassoc : "? " ++ scalar true (col + 2) (col + 2) name ++ newLine col ++ ": " ++ t
      = "? " ++ (scalar true (col + 2) (col + 2) name ++ (newLine col ++ (": " ++ t))) := by
    simp only [List.append_assoc]
  rw [hassoc]
  exact ⟨_, _, ⟨isPlain, _, _, _, _, _, _, htag, rfl⟩, hcolumn',
    (hquestion.trans htext).trans hcolon⟩

/-! ### Plain data -/

/-- The tokens of a sequence that stands no further to the right than the mapping around it. -/
def SaysSequence (ts : List Token) (vs : List Value) : Prop :=
  SaysItems ts vs ∧ ∃ start stop us, ts = ⟨.blockEntry, start, stop⟩ :: us

lemma SaysSequence.of_item {v : Value} (h : SaysItem ts v) : SaysSequence ts [v] := by
  have hitems := h.append [] [] saysItems_nil
  rw [List.append_nil] at hitems
  exact ⟨hitems, h.starts⟩

lemma SaysSequence.cons {us : List Token} {v : Value} {vs : List Value} (h : SaysItem ts v)
    (hs : SaysSequence us vs) : SaysSequence (ts ++ us) (v :: vs) := by
  obtain ⟨start, stop, ws, hws⟩ := h.starts
  exact ⟨h.append us vs hs.1, start, stop, ws ++ us, by rw [hws, List.cons_append]⟩

lemma SaysSequence.saysPart {vs : List Value} (h : SaysSequence ts vs) :
    SaysPart ts (.list vs) := by
  obtain ⟨hitems, start, stop, us, rfl⟩ := h
  exact hitems.saysPart

lemma opening_of_lt {word : Word} (h : indent < m.column) :
    opening word m indent = [⟨word, m, m⟩] :=
  if_pos h

lemma outersAt_of_lt (h : indent < m.column) : outersAt m indent outers = indent :: outers :=
  if_pos h

lemma opening_self {word : Word} : opening word m m.column = [] := if_neg (Int.lt_irrefl _)

lemma outersAt_self : outersAt m m.column outers = outers := if_neg (Int.lt_irrefl _)

end

mutual

/-- Plain data from a column on, further to the right than what is around it. -/
theorem leadsIf_block (j : Json) (hj : j.Every Json.IsRegular) {m : Mark} {col n : Nat}
    {next : Text} {indent : Int} (hcol : m.column = col) (hindent : indent < col)
    (hn : (n : Int) ≤ indent) (hnext : FollowsLine n next) (words : List Token)
    (outers : List Int) :
    LeadsIf (j.Every Json.HasNarrowNames)
      (LeadsTo (Says · (seen (col + 2) col j.toValue)) · n next words indent outers)
      (inBlock m (block col j ++ (newLine n ++ next)) words indent outers true) := by
  have hm : indent ≤ m.column := by omega
  have hkey : true = true → indent ≠ m.column := by omega
  have hlt : indent < m.column := by omega
  match j with
  | .null | .bool _ | .int _ | .float _ | .text _ | .array [] | .object [] =>
    -- These stand in the same place wherever they are written.
    rw [block_inPlace (by constructor)]
    exact (leadsTo_inPlace (by constructor) hj (col + 2) words outers (by omega) (by omega)
      (Nat.le_refl col) hm hkey hn hnext).leadsIf (IsInPlace.hasNarrowNames (by constructor))
  | .array (j :: js) =>
    -- The sequence is deeper than what encloses it, so it is opened here and closed after it.
    have hitems := leadsIf_itemLines j js hj.2 hcol hm (by omega) hnext words outers
    rw [opening_of_lt hlt, outersAt_of_lt hlt] at hitems
    refine hitems.imp fun s hs => (hs.close hnext (by omega)).imp ?_
    rintro _ ⟨us, place, rfl, hus⟩
    exact hus.1.saysSequence
  | .object ((name, j) :: es) =>
    have hentries := leadsIf_entryLines name j es hj.2 hcol hm (by omega) hnext words outers
    rw [opening_of_lt hlt, outersAt_of_lt hlt] at hentries
    refine hentries.imp fun s hs => (hs.close hnext (by omega)).imp ?_
    rintro _ ⟨us, place, rfl, hus⟩
    exact hus.saysMapping
termination_by 4 * sizeOf j

/-- Plain data after a simple key. -/
theorem leadsIf_keyed (j : Json) (hj : j.Every Json.IsRegular) {m : Mark} {col column n : Nat}
    {next : Text} (hcolumn : col < column) (hm : col ≤ m.column) (hn : n ≤ col)
    (hnext : FollowsLine n next) (words : List Token) (outers : List Int) :
    LeadsIf (j.Every Json.HasNarrowNames)
      (LeadsTo (SaysPart · (seen (col + 2) (col + 2) j.toValue)) · n next words col outers)
      (inBlock m (keyed col column j ++ (newLine n ++ next)) words col outers false) := by
  have hm' : ((col : Nat) : Int) ≤ (m.next ' ').column := by
    have hblank : (m.next ' ').column = m.column + 1 := rfl
    omega
  have hn' : (n : Int) ≤ col := by omega
  match j with
  | .null | .bool _ | .int _ | .float _ | .text _ | .array [] | .object [] =>
    -- These stand on the line of their key, after a blank.
    rw [keyed_inPlace (by constructor)]
    refine LeadsIf.of_runs Runs.blank
      (LeadsTo.leadsIf ?_ (IsInPlace.hasNarrowNames (by constructor)))
    exact (leadsTo_inPlace (by constructor) hj (col + 2) words outers (Nat.succ_pos _) (by omega)
      (by omega) hm' (by simp) hn' hnext).imp fun _ => Says.saysPart
  | .array (j :: js) =>
    -- A sequence stands on the next line at the column of its key, where it needs no opening.
    have hline : FollowsLine col (lines col (itemLines col (j :: js)) ++ (newLine n ++ next)) :=
      .inl (startsLine_items col j js _)
    have hcol := Mark.column_after_newLine (m := m) col
    have hitems := leadsIf_itemLines j js hj.2 hcol (Int.le_refl _) hn hnext words outers
    rw [opening_self, outersAt_self, hcol] at hitems
    rw [keyed, List.append_assoc]
    exact LeadsIf.of_runs (Runs.lineBreak hline)
      (hitems.imp fun s hs => hs.imp fun _ => SaysSequence.saysPart)
  | .object ((name, j) :: es) =>
    -- A mapping stands on the next line and deeper, so it is opened and closed on its own.
    have hline : FollowsLine (col + 2) (lines (col + 2) (entryLines (col + 2) ((name, j) :: es)) ++
        (newLine n ++ next)) := .inl (startsLine_entries (col + 2) name j es _)
    have hcol := Mark.column_after_newLine (m := m) (col + 2)
    have hlt : (col : Int) < (m.after (newLine (col + 2))).column := by omega
    have hentries :=
      leadsIf_entryLines name j es hj.2 hcol (Int.le_of_lt hlt) (by omega) hnext words outers
    rw [opening_of_lt hlt, outersAt_of_lt hlt] at hentries
    rw [keyed, List.append_assoc]
    refine LeadsIf.of_runs (Runs.lineBreak hline)
      (hentries.imp fun s hs => (hs.close hnext (by omega)).imp ?_)
    rintro _ ⟨us, place, rfl, hus⟩
    exact hus.saysMapping.saysPart
termination_by 4 * sizeOf j

/-- The items of an array at a column. -/
theorem leadsIf_itemLines (j : Json) (js : List Json) (hj : Json.EveryItem Json.IsRegular (j :: js))
    {m : Mark} {col n : Nat} {next : Text} {indent : Int} (hcol : m.column = col)
    (hm : indent ≤ m.column) (hn : n ≤ col) (hnext : FollowsLine n next) (words : List Token)
    (outers : List Int) :
    LeadsIf ((Json.array (j :: js)).Every Json.HasNarrowNames)
      (LeadsTo (SaysSequence · (seenItems (col + 2) (Json.toValues (j :: js)))) · n next
        (opening .blockSequenceStart m indent ++ words) m.column (outersAt m indent outers))
      (inBlock m (lines col (itemLines col (j :: js)) ++ (newLine n ++ next)) words indent outers
        true) := by
  refine LeadsIf.congr ?_ Json.every_hasNarrowNames_array_cons.symm
  -- The first item is a block behind its dash.
  have hitem {k : Nat} {rest : Text} (hk : k ≤ col) (hrest : FollowsLine k rest) :
      LeadsIf (j.Every Json.HasNarrowNames)
        (LeadsTo (SaysItem · (seen (col + 2 + 2) (col + 2) j.toValue)) · k rest
          (opening .blockSequenceStart m indent ++ words) m.column (outersAt m indent outers))
        (inBlock m ("- " ++ block (col + 2) j ++ (newLine k ++ rest)) words indent outers true) :=
    LeadsIf.item words outers hm fun m' words hm' =>
      leadsIf_block j hj.1 (by omega) (by omega) (by omega) hrest words _
  match js with
  | [] =>
    rw [itemLines, itemLines, lines_singleton, Json.toValues, Json.toValues]
    refine ((hitem hn hnext).imp fun s hs => hs.imp fun _ => SaysSequence.of_item).congr ?_
    exact (and_iff_left ⟨trivial, trivial⟩).symm
  | j' :: js =>
    -- The others follow at the same column, where the sequence is open already.
    have hitems (m' : Mark) (words : List Token) (hm' : m'.column = col) :
        LeadsIf ((Json.array (j' :: js)).Every Json.HasNarrowNames)
          (LeadsTo (SaysSequence · (seenItems (col + 2) (Json.toValues (j' :: js)))) · n next words
            m.column (outersAt m indent outers))
          (inBlock m' (lines col (itemLines col (j' :: js)) ++ (newLine n ++ next)) words m.column
            (outersAt m indent outers) true) := by
      have hitems := leadsIf_itemLines j' js hj.2 hm' (Int.le_refl _) hn hnext words
        (outersAt m indent outers)
      rw [opening_self, outersAt_self, hm', ← hcol] at hitems
      rw [hcol] at hitems ⊢
      exact hitems
    rw [lines_itemLines_cons_cons]
    refine ((hitem (Nat.le_refl col) (.inl (startsLine_items col j' js _))).andThen hitems).imp
      fun s hs => hs.imp ?_
    rintro _ ⟨us, vs, rfl, hus, hvs⟩
    exact SaysSequence.cons hus hvs
termination_by 4 * (sizeOf j + sizeOf js) + 2

/-- An entry of an object at a column. -/
theorem leadsIf_entryText (name : Text) (j : Json) (hj : j.Every Json.IsRegular) {m : Mark}
    {col n : Nat} {next : Text} {indent : Int} (hcol : m.column = col) (hm : indent ≤ m.column)
    (hn : n ≤ col) (hnext : FollowsLine n next) (words : List Token) (outers : List Int) :
    LeadsIf ((isSimpleKey name = true → keyWidth name ≤ 1024) ∧ j.Every Json.HasNarrowNames)
      (LeadsTo (SaysEntry · (seenKey col (.text name),
          seen (col + (if isBeside (.text name) then 2 else 4)) (col + 2) j.toValue)) · n next
        (opening .blockMappingStart m indent ++ words) m.column (outersAt m indent outers))
      (inBlock m (entryText col name j ++ (newLine n ++ next)) words indent outers true) := by
  rw [entryText, seenKey, isBeside]
  by_cases hsimple : isSimpleKey name = true
  case pos =>
    -- The name stands on the line of its colon, if it is not too wide for that.
    rw [imp_iff_right hsimple, if_pos hsimple, if_pos hsimple, hsimple, Bool.not_true,
      seenText_false, List.append_assoc]
    refine (leadsIf_beside words outers hsimple hcol hm (atBlank_keyed j _)).bind ?_
    rintro _ ⟨ts, m', hts, hm', rfl⟩
    rw [hcol]
    refine (leadsIf_keyed j hj (by omega) (by omega) hn hnext _ _).imp
      fun s hs => (hs.append ts).imp ?_
    rintro _ ⟨us, rfl, hus⟩
    exact hts.saysEntry hus
  case neg =>
    -- The name stands behind a question mark, and the value is a block behind its colon.
    refine LeadsIf.congr ?_ (and_iff_right fun h => absurd h hsimple).symm
    rw [if_neg hsimple, if_neg hsimple, Bool.eq_false_of_not_eq_true hsimple, Bool.not_false,
      List.append_assoc]
    obtain ⟨ts, m', hts, hm', hruns⟩ := Runs.below name words outers hcol hm
    refine LeadsIf.of_runs hruns
      ((leadsIf_block j hj (by omega) (by omega) (by omega) hnext _ _).imp
        fun s hs => (hs.append ts).imp ?_)
    rintro _ ⟨us, rfl, hus⟩
    exact hts.saysEntry hus.saysPart
termination_by 4 * sizeOf j + 1

/-- The entries of an object at a column. -/
theorem leadsIf_entryLines (name : Text) (j : Json) (es : List (Text × Json))
    (hj : Json.EveryEntry Json.IsRegular ((name, j) :: es)) {m : Mark} {col n : Nat} {next : Text}
    {indent : Int} (hcol : m.column = col) (hm : indent ≤ m.column) (hn : n ≤ col)
    (hnext : FollowsLine n next) (words : List Token) (outers : List Int) :
    LeadsIf ((Json.object ((name, j) :: es)).Every Json.HasNarrowNames)
      (LeadsTo (SaysEntries · (seenEntries col (Json.toEntries ((name, j) :: es)))) · n next
        (opening .blockMappingStart m indent ++ words) m.column (outersAt m indent outers))
      (inBlock m (lines col (entryLines col ((name, j) :: es)) ++ (newLine n ++ next)) words indent
        outers true) := by
  refine LeadsIf.congr ?_ Json.every_hasNarrowNames_object_cons.symm
  match es with
  | [] =>
    rw [entryLines_cons, entryLines, lines_singleton]
    have hentry := leadsIf_entryText name j hj.1 hcol hm hn hnext words outers
    refine (hentry.imp fun s hs => hs.imp ?_).congr
      (and_iff_left ⟨by simp [Json.HasNarrowNames], trivial⟩).symm
    intro ts hts
    have hentries := hts [] [] saysEntries_nil
    rwa [List.append_nil] at hentries
  | (name', j') :: es =>
    have hline : FollowsLine col (lines col (entryLines col ((name', j') :: es)) ++
        (newLine n ++ next)) := .inl (startsLine_entries col name' j' es _)
    -- The first entry is followed by a line at the same column, where the mapping is open already.
    have hentry := leadsIf_entryText name j hj.1 hcol hm (Nat.le_refl col) hline words outers
    have hentries (m' : Mark) (words : List Token) (hm' : m'.column = col) :
        LeadsIf ((Json.object ((name', j') :: es)).Every Json.HasNarrowNames)
          (LeadsTo (SaysEntries · (seenEntries col (Json.toEntries ((name', j') :: es)))) · n next
            words m.column (outersAt m indent outers))
          (inBlock m' (lines col (entryLines col ((name', j') :: es)) ++ (newLine n ++ next)) words
            m.column (outersAt m indent outers) true) := by
      have hentries := leadsIf_entryLines name' j' es hj.2 hm' (Int.le_refl _) hn hnext words
        (outersAt m indent outers)
      rw [opening_self, outersAt_self, hm'] at hentries
      rw [hcol]
      exact hentries
    rw [lines_entryLines_cons_cons]
    refine (hentry.andThen hentries).imp fun s hs => hs.imp ?_
    rintro _ ⟨us, vs, rfl, hus, hvs⟩
    exact hus vs _ hvs
termination_by 4 * (sizeOf j + sizeOf es) + 2

end

end Schematic.Yaml.TokenReader
