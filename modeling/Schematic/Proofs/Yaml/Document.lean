import Schematic.Proofs.Yaml.Block
import Schematic.Proofs.Yaml.Moves
import Schematic.Proofs.Yaml.Stop

/-!
# Reading rendered documents

A rendered object can be read if no simple key in it is too wide for the reader, and then it is read
as `seen` says. All of a document is printable ASCII and line feeds, whatever the object holds.
-/

namespace Schematic.Yaml

open Source

/-! ### Pages -/

lemma isPage_of_spelling {t : Text} {v : Value} (h : IsSpelling t v) : IsPage t :=
  h.isPlainText.isLine.isPage

/-- Lines of pages are a page. -/
lemma isPage_lines {col : Nat} {ls : List Text} (h : ∀ t ∈ ls, IsPage t) :
    IsPage (lines col ls) := by
  induction ls with
  | nil => exact isLine_nil.isPage
  | cons t ls ih =>
    obtain ⟨ht, hls⟩ := List.forall_mem_cons.mp h
    cases ls with
    | nil =>
      rw [TokenReader.lines_singleton]
      exact ht
    | cons u ls =>
      rw [TokenReader.lines_cons_cons]
      exact ht.append ((isPage_newLine col).append (ih hls))

mutual

/-- A block of regular data is a page. -/
theorem isPage_block (j : Json) (hj : j.Every Json.IsRegular) (col : Nat) :
    IsPage (block col j) := by
  match j with
  | .null => exact isPage_of_spelling isSpelling_null
  | .bool true => exact isPage_of_spelling isSpelling_true
  | .bool false => exact isPage_of_spelling isSpelling_false
  | .int k => exact isPage_of_spelling (isSpelling_int hj.isShort)
  | .float x => exact isPage_of_spelling (isSpelling_float hj.isFinite)
  | .text t => exact isPage_scalar true col col t
  | .array [] => exact (by decide : IsLine "[]").isPage
  | .object [] => exact (by decide : IsLine "\x7b\x7d").isPage
  | .array (j :: js) => exact isPage_lines (isPage_items (j :: js) hj.2 col)
  | .object (e :: es) => exact isPage_lines (isPage_entries (e :: es) hj.2 col)

theorem isPage_keyed (j : Json) (hj : j.Every Json.IsRegular) (col column : Nat) :
    IsPage (keyed col column j) := by
  have hblank {t : Text} (ht : IsPage t) : IsPage (" " ++ t) :=
    (by decide : IsLine " ").isPage.append ht
  match j with
  | .null => exact hblank (isPage_of_spelling isSpelling_null)
  | .bool true => exact hblank (isPage_of_spelling isSpelling_true)
  | .bool false => exact hblank (isPage_of_spelling isSpelling_false)
  | .int k => exact hblank (isPage_of_spelling (isSpelling_int hj.isShort))
  | .float x => exact hblank (isPage_of_spelling (isSpelling_float hj.isFinite))
  | .text t => exact hblank (isPage_scalar true (col + 2) (column + 1) t)
  | .array [] => exact (by decide : IsLine " []").isPage
  | .object [] => exact (by decide : IsLine " \x7b\x7d").isPage
  | .array (j :: js) =>
    exact (isPage_newLine col).append (isPage_lines (isPage_items (j :: js) hj.2 col))
  | .object (e :: es) =>
    exact (isPage_newLine (col + 2)).append (isPage_lines (isPage_entries (e :: es) hj.2 (col + 2)))

/-- The lines of items are pages. -/
theorem isPage_items (js : List Json) (hj : Json.EveryItem Json.IsRegular js) (col : Nat) :
    ∀ t ∈ itemLines col js, IsPage t := by
  match js with
  | [] => simp [itemLines]
  | j :: js =>
    rw [itemLines, List.forall_mem_cons]
    exact ⟨(by decide : IsLine "- ").isPage.append (isPage_block j hj.1 (col + 2)),
      isPage_items js hj.2 col⟩

/-- The lines of entries are pages. -/
theorem isPage_entries (es : List (Text × Json)) (hj : Json.EveryEntry Json.IsRegular es)
    (col : Nat) :
    ∀ t ∈ entryLines col es, IsPage t := by
  match es with
  | [] => simp [entryLines]
  | (name, j) :: es =>
    rw [TokenReader.entryLines_cons, List.forall_mem_cons]
    refine ⟨?_, isPage_entries es hj.2 col⟩
    rw [TokenReader.entryText]
    split
    case isTrue hsimple =>
      exact ((isLine_simpleKey col hsimple).isPage.append (by decide : IsLine ":").isPage).append
        (isPage_keyed j hj.1 _ _)
    case isFalse =>
      exact ((((by decide : IsLine "? ").isPage.append (isPage_scalar true _ _ name)).append
        (isPage_newLine col)).append (by decide : IsLine ": ").isPage).append
          (isPage_block j hj.1 (col + 2))

end

/-- A rendered document is a page. -/
theorem isPage_render (es : List (Text × Json)) (hj : (Json.object es).Every Json.IsRegular) :
    IsPage (render es) :=
  (isPage_block (.object es) hj 0).append (isPage_newLine 0)

/-! ### Tokens of documents -/

lemma Tokens.eq_of_whole? {ts : Tokens} {ready : List Token} {m : Mark}
    (h : ts.whole? = some (ready, m)) : ts = ⟨ready, .ok m⟩ := by
  obtain ⟨ready', stop⟩ := ts
  cases stop with
  | ok m' =>
    obtain ⟨rfl, rfl⟩ := Prod.mk.inj (Option.some.inj h)
    rfl
  | error e => simp [whole?] at h

lemma Tokens.exists_stop_eq {ts : Tokens} (h : ts.whole? = none) : ∃ e, ts.stop = .error e := by
  obtain ⟨ready, stop⟩ := ts
  cases stop with
  | ok m => simp [whole?] at h
  | error e => exact ⟨e, rfl⟩

namespace TokenReader

variable {t : Text} {r : TokenReader} {m m' : Mark} {words : List Token}

/-- A reader at the end of a document closes the block of its mapping. -/
lemma run_end (fuel : Nat) (hm : m.column = 0) :
    (inBlock m [] words 0 [-1] true).run (fuel + 1)
      = ⟨words.reverse ++ [⟨.blockEnd, m, m⟩], .ok m⟩ := by
  have hstep : (inBlock m [] words 0 [-1] true).step = .ok none := by
    have hmark : (inBlock m [] words 0 [-1] true).mark = m := rfl
    rw [step, skipBlanks_inBlock (.inr rfl), dropStale_inBlock, ok_bind, hmark,
      unwind_inBlock_self (by omega)]
    rfl
  have hfinish : (inBlock m [] words 0 [-1] true).finish
      = .ok (inBlock m [] (⟨.blockEnd, m, m⟩ :: words) (-1) [] true) := by
    rw [finish, skipBlanks_inBlock (.inr rfl), dropStale_inBlock, ok_bind,
      unwind_inBlock (by decide), unwind_inBlock_self (Int.le_refl _)]
    rfl
  have hready : (inBlock m [] (⟨.blockEnd, m, m⟩ :: words) (-1) [] true).produced.reverse
      = words.reverse ++ [⟨.blockEnd, m, m⟩] := List.reverse_cons
  rw [run, hstep, hfinish, ← hready]
  rfl

/-- The tokens of a source that is read to its end. -/
lemma ofSource_of_runs {s : Source} {ready : List Token} (hruns : Runs (.start s) r)
    (hend : ∀ fuel, r.run (fuel + 1) = ⟨ready, .ok m⟩) : Tokens.ofSource s = ⟨ready, .ok m⟩ := by
  obtain ⟨k, hk, hrun⟩ := hruns
  have hlength : k ≤ s.length := Nat.le_trans (Nat.le_add_left _ _) hk
  have hwhole := hrun (s.length - k)
  rw [hend, show s.length - k + 1 + k = s.length + 1 by omega] at hwhole
  exact Tokens.eq_of_whole? hwhole

/-- The tokens of a source that cannot be read to its end. -/
lemma ofSource_of_fails {s : Source} (h : Fails (.start s)) :
    ∃ ts e, Tokens.ofSource s = ⟨ts, .error e⟩ ∧ ∀ t ∈ ts, t.word ≠ .streamEnd := by
  obtain ⟨e, he⟩ := Tokens.exists_stop_eq (h (s.length + 1) (Nat.lt_succ_self _))
  have hopen : (start s).IsOpen := by
    simp [IsOpen, start]
  let ts := (start s).run (s.length + 1)
  have hts : ts = ⟨ts.ready, .error e⟩ := congrArg (Tokens.mk ts.ready) he
  exact ⟨ts.ready, e, hts, hopen.run _⟩

end TokenReader

/-! ### Values of documents -/

open NodeReader (Says SaysEntries ofTokens?_mapping)

variable (name : Text) (j : Json) (es : List (Text × Json))

/-- A reader in front of a rendered object comes to its end if no key in it is too wide. -/
lemma leadsIf_render (hj : (Json.object ((name, j) :: es)).Every Json.IsRegular) :
    TokenReader.LeadsIf ((Json.object ((name, j) :: es)).Every Json.HasNarrowNames)
      (TokenReader.LeadsTo (SaysEntries · (seenEntries 0 (Json.toEntries ((name, j) :: es)))) · 0 []
        [⟨.blockMappingStart, .origin, .origin⟩] 0 [-1])
      (.start (ofText .origin (render ((name, j) :: es)))) := by
  have hcolumn : Mark.origin.column = 0 := rfl
  have hindent : (-1 : Int) ≤ Mark.origin.column := by decide
  have hend : FollowsLine 0 [] := .inr ⟨rfl, rfl⟩
  exact TokenReader.leadsIf_entryLines name j es hj.2 hcolumn hindent (Nat.le_refl 0) hend [] []

/-- A rendered object without keys that are too wide is read as it is seen. -/
theorem read_render (hj : (Json.object ((name, j) :: es)).Every Json.IsRegular)
    (hnarrow : (Json.object ((name, j) :: es)).Every Json.HasNarrowNames) :
    read (render ((name, j) :: es))
      = .ok (.ofEntries (seenEntries 0 (Json.toEntries ((name, j) :: es)))) := by
  obtain ⟨ts, m, hts, hm, hruns⟩ := (leadsIf_render name j es hj).leadsTo hnarrow
  obtain ⟨n, hn, hvalue⟩ : Says
      (⟨.blockMappingStart, .origin, .origin⟩ :: (ts ++ [⟨.blockEnd, m, m⟩]))
      (.ofEntries (seenEntries 0 (Json.toEntries ((name, j) :: es)))) := hts.saysMapping
  have htokens := TokenReader.ofSource_of_runs hruns (TokenReader.run_end · hm)
  rw [List.reverse_append, List.reverse_reverse, List.reverse_singleton, List.append_assoc,
    List.singleton_append] at htokens
  rw [read, (isPage_render _ hj).compose_eq, htokens, ofTokens?_mapping hn]
  exact congrArg (Except.mapError Fault.failure) hvalue

/-- A rendered object with a key that is too wide cannot be read. -/
theorem read_render_eq_error (hj : (Json.object ((name, j) :: es)).Every Json.IsRegular)
    (hwide : ¬ (Json.object ((name, j) :: es)).Every Json.HasNarrowNames) :
    ∃ e, read (render ((name, j) :: es)) = .error e := by
  obtain ⟨ts, e, htokens, hready⟩ :=
    TokenReader.ofSource_of_fails ((leadsIf_render name j es hj).2 hwide)
  obtain ⟨e', he'⟩ : ∃ e', Node.ofTokens? ⟨ts, .error e⟩ = .error e' := ofTokens?_eq_error hready
  exact ⟨e', by rw [read, (isPage_render _ hj).compose_eq, htokens, he']; rfl⟩

end Schematic.Yaml
