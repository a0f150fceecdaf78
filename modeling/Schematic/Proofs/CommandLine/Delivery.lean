import Schematic.CommandLine.Run
import Schematic.Proofs.FileTree.Workspace

/-!
# All or nothing

A request to render either delivers the whole document, to the output or to the file that is named,
or it prints nothing and leaves every file as it was. One failure is excepted: a document with half
of a surrogate pair has no bytes, which is found only after its file has been emptied.
-/

namespace Schematic.CommandLine

variable {environment : Environment} {line : List Text} {r : RenderRequest} {w w' : Workspace}
  {document path activity subject : Text} {log : List LogLine} {e : Failure} {u : Utf8.Unwritable}

/-- A request renders a document: the one of its component file, for the values of its
parameters. -/
def RenderRequest.Renders (environment : Environment) (r : RenderRequest) (w : Workspace)
    (document : Text) : Prop :=
  ∃ supplied bytes text c, assignments r.params = .ok supplied ∧ w.read r.component = .ok bytes ∧
    fileText bytes = .ok text ∧ Component.ofText text = .ok c ∧
    c.renderPod supplied (r.formatName environment) = .ok document

/-- A document is delivered whole: as the output, or as the content of the file that is named. -/
def IsDelivered (target : Option Text) (document output : Text) (w w' : Workspace) : Prop :=
  match target with
  | none | some [] => output = document ∧ w' = w
  | some path =>
    output = [] ∧ ∃ bytes, Utf8.encodeText document = .ok bytes ∧ w'.HasWritten w path bytes

/-- A request that ends well has delivered its document, any other one has left nothing. -/
def IsAllOrNothing (environment : Environment) (r : RenderRequest) (w : Workspace)
    (result : Outcome × Workspace) : Prop :=
  (result.1.exit = .ok 0 →
    ∃ document, r.Renders environment w document ∧
      IsDelivered r.output document result.1.output w result.2) ∧
  (result.1.exit ≠ .ok 0 → result.1.output = [] ∧ result.2.HasFilesOf w)

/-- The file that is named is emptied for a document that has no bytes. -/
def IsEmptied (target : Option Text) (document : Text) (u : Utf8.Unwritable) (w w' : Workspace) :
    Prop :=
  ∃ path, target = some path ∧ path ≠ [] ∧ Utf8.encodeText document = .error u ∧
    w'.HasWritten w path []

lemma bind_apply {σ α β : Type} (x : StateM σ α) (f : α → StateM σ β) (s : σ) :
    (x >>= f) s = f (x s).1 (x s).2 := rfl

/-! ### Failing -/

lemma Outcome.output_failed : (Outcome.failed activity subject log e).output = [] := by
  rw [Outcome.failed]
  split <;> rfl

lemma Outcome.exit_failed : (Outcome.failed activity subject log e).exit =
    if e.isReported then .ok 1 else .error e := by
  rw [Outcome.failed]
  split <;> rfl

/-- What a result is to be: all or nothing, or an emptied file for a document that has no bytes. -/
def IsAllOrNothingOrEmptied (environment : Environment) (r : RenderRequest) (w : Workspace)
    (result : Outcome × Workspace) : Prop :=
  ((∀ u, result.1.exit ≠ .error (.writing u)) → IsAllOrNothing environment r w result) ∧
    ∀ u, result.1.exit = .error (.writing u) → result.1.output = [] ∧
      ∃ document, r.Renders environment w document ∧ IsEmptied r.output document u w result.2

/-- Nothing is left by a result that prints nothing and keeps the files. -/
lemma isAllOrNothingOrEmptied_of_fails {o : Outcome} (hzero : o.exit ≠ .ok 0)
    (hwriting : ∀ u, o.exit ≠ .error (.writing u)) (houtput : o.output = []) (h : w'.HasFilesOf w) :
    IsAllOrNothingOrEmptied environment r w (o, w') :=
  ⟨fun _ => ⟨fun hexit => absurd hexit hzero, fun _ => ⟨houtput, h⟩⟩,
    fun u hexit => absurd hexit (hwriting u)⟩

/-- A failure that leaves the files as they were is all right, unless it could have emptied one. -/
lemma isAllOrNothingOrEmptied_failed (he : ∀ u, e ≠ .writing u) (h : w'.HasFilesOf w) :
    IsAllOrNothingOrEmptied environment r w (.failed activity subject log e, w') := by
  refine isAllOrNothingOrEmptied_of_fails ?_ (fun u => ?_) Outcome.output_failed h
  · rw [Outcome.exit_failed]
    split <;> simp
  · rw [Outcome.exit_failed]
    split
    · simp
    · simpa using he u

/-! ### Writing -/

/-- The parents are made if the path can be one, and what can not be made is told of. -/
lemma makeParents_eq (path : Text) (w : Workspace) :
    (makeParents path : StateM Workspace _) w =
      match FilePath.fault? (FilePath.parent path) with
      | some f => (.error (.path f), w)
      | none =>
        let made := Workspace.change (Workspace.makeParents path) w
        (made.1.mapError .file, made.2) := by
  unfold makeParents
  cases FilePath.fault? (FilePath.parent path) <;> rfl

/-- A document is written if the path can be one and the document has bytes. -/
lemma writeDocument_eq (path document : Text) (w : Workspace) :
    (writeDocument path document : StateM Workspace _) w =
      match FilePath.fault? (FilePath.normal path), Utf8.encodeText document with
      | some f, _ => (.error (.path f), w)
      | none, .ok bytes =>
        let written := Workspace.change (Workspace.write path bytes) w
        (written.1.mapError .file, written.2)
      | none, .error u =>
        let emptied := Workspace.change (Workspace.write path []) w
        ((emptied.1.mapError .file).bind fun _ => .error (.writing u), emptied.2) := by
  unfold writeDocument
  cases FilePath.fault? (FilePath.normal path) <;> cases Utf8.encodeText document <;> rfl

/-- A failure at a path: something is in the way there, or the text is no path. -/
def IsPathFailure (path : Text) (e : Failure) : Prop :=
  (∃ f, e = .file f) ∨
    ∃ f, e = .path f ∧
      (FilePath.fault? (FilePath.parent path) = some f ∨
        FilePath.fault? (FilePath.normal path) = some f)

lemma IsPathFailure.ne_writing (h : IsPathFailure path e) (u : Utf8.Unwritable) :
    e ≠ .writing u := by
  rcases h with ⟨f, rfl⟩ | ⟨f, rfl, -⟩ <;> simp

/-- Making directories leaves every file as it was. -/
lemma makeParents_cases (path : Text) (w : Workspace) :
    (∃ w', (makeParents path : StateM Workspace _) w = (.ok (), w') ∧ w'.HasFilesOf w) ∨
      ∃ e, (makeParents path : StateM Workspace _) w = (.error e, w) ∧ IsPathFailure path e := by
  rw [makeParents_eq]
  split
  · next f hf => exact .inr ⟨.path f, rfl, .inr ⟨f, rfl, .inl hf⟩⟩
  · simp only [Workspace.change]
    split
    · next w' h => exact .inl ⟨w', rfl, Workspace.hasFilesOf_makeParents h⟩
    · next e _ => exact .inr ⟨.file e, rfl, .inl ⟨e, rfl⟩⟩

/-- What writing a document leaves: the document, or the files as they were, or an empty file when
the document has no bytes. -/
lemma writeDocument_cases (path document : Text) (w : Workspace) :
    (∃ bytes w', (writeDocument path document : StateM Workspace _) w = (.ok (), w') ∧
        Utf8.encodeText document = .ok bytes ∧ w'.HasWritten w path bytes) ∨
      (∃ e, (writeDocument path document : StateM Workspace _) w = (.error e, w) ∧
        IsPathFailure path e) ∨
      ∃ u w', (writeDocument path document : StateM Workspace _) w = (.error (.writing u), w') ∧
        Utf8.encodeText document = .error u ∧ w'.HasWritten w path [] := by
  rw [writeDocument_eq]
  split
  · next hf => exact .inr (.inl ⟨_, rfl, .inr ⟨_, rfl, .inr hf⟩⟩)
  · next bytes _ hbytes =>
    simp only [Workspace.change]
    split
    · next w' h => exact .inl ⟨bytes, w', rfl, hbytes, Workspace.hasWritten_write h⟩
    · next e _ => exact .inr (.inl ⟨.file e, rfl, .inl ⟨e, rfl⟩⟩)
  · next u _ hu =>
    simp only [Workspace.change]
    split
    · next w' h => exact .inr (.inr ⟨u, w', rfl, hu, Workspace.hasWritten_write h⟩)
    · next e _ => exact .inr (.inl ⟨.file e, rfl, .inl ⟨e, rfl⟩⟩)

/-! ### Delivering -/

/-- A document that goes to a file is written after the parents of the file are made. -/
lemma deliver_eq (path : Text) (hpath : path ≠ []) (log : List LogLine) (document : Text)
    (w : Workspace) :
    (deliver (some path) log document : StateM Workspace _) w =
      match (makeParents path : StateM Workspace _) w with
      | (.error e, w) => (.failed "write" path log e, w)
      | (.ok (), w) =>
        match (writeDocument path document : StateM Workspace _) w with
        | (.error e, w) => (.failed "write" path log e, w)
        | (.ok (), w) =>
          ({ exit := .ok 0, log := log ++ [told .info ("Pod spec written to " ++ path)] }, w) := by
  obtain ⟨c, path, rfl⟩ := List.exists_cons_of_ne_nil hpath
  simp only [deliver, bind_apply]
  rcases (makeParents (c :: path) : StateM Workspace _) w with ⟨e | ⟨⟩, w₁⟩
  · rfl
  · simp only [bind_apply]
    rcases (writeDocument (c :: path) document : StateM Workspace _) w₁ with ⟨e | ⟨⟩, w₂⟩ <;> rfl

/-- What the delivery of a document leaves: the document, or the files as they were, or an empty
file. -/
inductive Delivery (target : Option Text) (document : Text) (w : Workspace) :
    Outcome × Workspace → Prop
  | delivered {o : Outcome} {w' : Workspace} (hexit : o.exit = .ok 0)
      (h : IsDelivered target document o.output w w') : Delivery target document w (o, w')
  | failed {path : Text} {e : Failure} {log : List LogLine} {w' : Workspace}
      (htarget : target = some path) (he : IsPathFailure path e) (h : w'.HasFilesOf w) :
      Delivery target document w (.failed "write" path log e, w')
  | emptied {o : Outcome} {u : Utf8.Unwritable} {w' : Workspace}
      (hexit : o.exit = .error (.writing u)) (houtput : o.output = [])
      (h : IsEmptied target document u w w') : Delivery target document w (o, w')

/-- The delivery of a document leaves the files as `Delivery` says. -/
lemma delivery_deliver (target : Option Text) (log : List LogLine) (document : Text)
    (w : Workspace) :
    Delivery target document w ((deliver target log document : StateM Workspace _) w) := by
  match target with
  | none => exact .delivered rfl ⟨rfl, rfl⟩
  | some [] => exact .delivered rfl ⟨rfl, rfl⟩
  | some (c :: path) =>
    rw [deliver_eq (c :: path) (List.cons_ne_nil c path)]
    rcases makeParents_cases (c :: path) w with ⟨w₁, hmade, hfiles⟩ | ⟨e, hfailed, he⟩
    · simp only [hmade]
      rcases writeDocument_cases (c :: path) document w₁ with
        ⟨bytes, w₂, hwritten, hbytes, h⟩ | ⟨e, hfailed, he⟩ | ⟨u, w₂, hemptied, hu, h⟩
      · rw [hwritten]
        exact .delivered rfl ⟨rfl, bytes, hbytes, h.trans hfiles⟩
      · rw [hfailed]
        exact .failed rfl he hfiles
      · rw [hemptied]
        exact .emptied Outcome.exit_failed Outcome.output_failed
          ⟨c :: path, rfl, List.cons_ne_nil c path, hu, h.trans hfiles⟩
    · rw [hfailed]
      exact .failed rfl he (.refl w)

/-! ### Rendering -/

/-- A path that can be none leads nowhere. -/
lemma isThere_eq (path : Text) (w : Workspace) :
    (isThere path : StateM Workspace _) w =
      (match FilePath.fault? (FilePath.normal path) with
        | some _ => .ok false
        | none => w.isThere path, w) := by
  unfold isThere
  cases FilePath.fault? (FilePath.normal path) <;> rfl

lemma read_apply (path : Text) (w : Workspace) :
    (Files.read path : StateM Workspace _) w = (w.read path, w) := rfl

/-- What rendering does, from what it finds. -/
lemma render_eq (environment : Environment) (r : RenderRequest) (w : Workspace) :
    (render environment r : StateM Workspace _) w
      = match ((isThere r.component : StateM Workspace _) w).1, assignments r.params, w.read
        r.component with
      | .error e, _, _ => ({ exit := .error (.file e) }, w)
      | .ok false, _, _ =>
        ({ exit := .ok 1
           log := [told .critical ("Component file not found: " ++ r.component)] }, w)
      | .ok true, .error e, _ => (.failed "render" r.component [] (.assignment e), w)
      | .ok true, .ok _, .error e => (.failed "render" r.component [] (.file e), w)
      | .ok true, .ok supplied, .ok bytes =>
        match renderBytes (r.formatName environment) supplied r.component bytes with
        | (log, .error e) => (.failed "render" r.component log e, w)
        | (log, .ok document) => (deliver r.output log document : StateM Workspace _) w := by
  -- The file is looked for first, then the values are read, then the bytes of the file.
  simp only [render, bind_apply, isThere_eq]
  rcases (match FilePath.fault? (FilePath.normal r.component) with
    | some _ => .ok false
    | none => w.isThere r.component : Except FileError Bool) with e | ⟨_ | _⟩
  · rfl
  · rfl
  · cases assignments r.params with
    | error e => rfl
    | ok supplied =>
      simp only [bind_apply, read_apply]
      cases w.read r.component with
      | error e => rfl
      | ok bytes =>
        simp only []
        rcases renderBytes (r.formatName environment) supplied r.component bytes with ⟨log,
          e | document⟩ <;> rfl

/-- Why a request does not render its component file. -/
inductive RenderRequest.FailsBy (environment : Environment) (r : RenderRequest) (w : Workspace) :
    Failure → Prop
  | assignment {e : AssignmentError} (h : assignments r.params = .error e) :
      FailsBy environment r w (.assignment e)
  | file {e : FileError} (h : w.read r.component = .error e) : FailsBy environment r w (.file e)
  | decoding {bytes : List UInt8} {e : Utf8.Error} (hbytes : w.read r.component = .ok bytes)
      (h : Utf8.decode bytes = .error e) : FailsBy environment r w (.decoding e)
  | reading {bytes : List UInt8} {text : Text} {e : Component.ReadError}
      (hbytes : w.read r.component = .ok bytes) (htext : fileText bytes = .ok text)
      (h : Component.ofText text = .error e) : FailsBy environment r w (.reading e)
  | rendering {supplied : Bindings} {bytes : List UInt8} {text : Text} {c : Component}
      {e : RenderError} (hsupplied : assignments r.params = .ok supplied)
      (hbytes : w.read r.component = .ok bytes) (htext : fileText bytes = .ok text)
      (hc : Component.ofText text = .ok c)
      (h : c.renderPod supplied (r.formatName environment) = .error e) :
      FailsBy environment r w (.rendering e)

lemma RenderRequest.FailsBy.ne_writing (h : r.FailsBy environment w e) (u : Utf8.Unwritable) :
    e ≠ .writing u := by
  cases h <;> simp

/-- What a request to render leaves. -/
inductive Rendering (environment : Environment) (r : RenderRequest) (w : Workspace) :
    Outcome × Workspace → Prop
  | unseen {e : FileError} (h : ((isThere r.component : StateM Workspace _) w).1 = .error e) :
      Rendering environment r w ({ exit := .error (.file e) }, w)
  | absent {log : List LogLine} : Rendering environment r w ({ exit := .ok 1, log }, w)
  | failed {e : Failure} {log : List LogLine} (h : r.FailsBy environment w e) :
      Rendering environment r w (.failed "render" r.component log e, w)
  | rendered {document : Text} {result : Outcome × Workspace} (h : r.Renders environment w document)
      (hresult : Delivery r.output document w result) : Rendering environment r w result

/-- A text is decoded from bytes, or it fails as they do. -/
lemma fileText_eq_error {bytes : List UInt8} (h : fileText bytes = .error e) :
    ∃ e', Utf8.decode bytes = .error e' ∧ e = .decoding e' := by
  cases hdecode : Utf8.decode bytes with
  | error e' =>
    rw [fileText, hdecode] at h
    cases h
    exact ⟨e', rfl, rfl⟩
  | ok t =>
    rw [fileText, hdecode] at h
    cases h

/-- A run of the rendering command ends as `Rendering` says. -/
lemma rendering_render (environment : Environment) (r : RenderRequest) (w : Workspace) :
    Rendering environment r w ((render environment r : StateM Workspace _) w) := by
  rw [render_eq]
  split
  · next h => exact .unseen h
  · exact .absent
  · next h => exact .failed (.assignment h)
  · next h => exact .failed (.file h)
  · -- Each step of the rendering has a kind of failure of its own.
    next supplied bytes _ hsupplied hbytes =>
    rw [renderBytes]
    cases htext : fileText bytes with
    | error e =>
      obtain ⟨e', hdecode, rfl⟩ := fileText_eq_error htext
      exact .failed (.decoding hbytes hdecode)
    | ok text =>
      simp only [renderDocument]
      cases hc : Component.ofText text with
      | error e => exact .failed (.reading hbytes htext hc)
      | ok c =>
        simp only []
        cases hdocument : c.renderPod supplied (r.formatName environment) with
        | error e => exact .failed (.rendering hsupplied hbytes htext hc hdocument)
        | ok document =>
          exact .rendered ⟨supplied, bytes, text, c, hsupplied, hbytes, htext, hc, hdocument⟩
            (delivery_deliver ..)

lemma run_of_render (h : request line = .ok (.render r)) :
    (run environment line : StateM Workspace _) = render environment r := by
  rw [run, h]

/-- A request to render is all or nothing, unless writing its document ends the program: then the
document has no bytes, nothing is printed, and of all files the one that is named has been
emptied. -/
theorem run_isAllOrNothing (h : request line = .ok (.render r)) :
    IsAllOrNothingOrEmptied environment r w ((run environment line : StateM Workspace _) w) := by
  rw [run_of_render h]
  have hresult := rendering_render environment r w
  generalize (render environment r : StateM Workspace _) w = result at hresult ⊢
  cases hresult with
  | unseen _ => exact isAllOrNothingOrEmptied_of_fails (by simp) (by simp) rfl (.refl w)
  | absent => exact isAllOrNothingOrEmptied_of_fails (by simp) (by simp) rfl (.refl w)
  | failed h => exact isAllOrNothingOrEmptied_failed h.ne_writing (.refl w)
  | rendered hdocument hresult =>
    cases hresult with
    | delivered hexit h =>
      exact ⟨fun _ => ⟨fun _ => ⟨_, hdocument, h⟩, fun hne => absurd hexit hne⟩,
        fun u hu => by simp [hexit] at hu⟩
    | failed htarget he h => exact isAllOrNothingOrEmptied_failed he.ne_writing h
    | emptied hexit houtput h =>
      refine ⟨fun hne => absurd hexit (hne _), fun u hu => ?_⟩
      obtain rfl : _ = u := by simpa [hexit] using hu
      exact ⟨houtput, _, hdocument, h⟩

/-! A request that writes over a file, for a component whose image is a name and for one whose image
is half of a surrogate pair. -/

/-- A workspace with the file of a component and a file that was written before. -/
def workspaceOf (component : String) : Workspace :=
  ⟨.directory [
    ("c.json", .file (Utf8.encode component.toList)), ("pod", .file [111, 108, 100])], []⟩

def nginxImage : Workspace :=
  workspaceOf "\x7b\"containers\": [\x7b\"name\": \"main\", \"image\": \"nginx\"\x7d]\x7d"

def halfImage : Workspace :=
  workspaceOf "\x7b\"containers\": [\x7b\"name\": \"main\", \"image\": \"\\ud800\"\x7d]\x7d"

def overPod : RenderRequest := ⟨"c.json", [], some "json", some "pod"⟩

def overPodLine : List Text := ["render", "c.json", "--format", "json", "--output", "pod"]

lemma request_overPodLine : request overPodLine = .ok (.render overPod) := by
  decide +kernel

/-- A component is rendered into a file that was there before. -/
theorem run_isAllOrNothing_overPod :
    request overPodLine = .ok (.render overPod) ∧
      ((run {} overPodLine : StateM Workspace _) nginxImage).1.exit.toOption = some 0 ∧
      IsAllOrNothingOrEmptied {} overPod nginxImage
        ((run {} overPodLine : StateM Workspace _) nginxImage) :=
  ⟨request_overPodLine, by decide +kernel, run_isAllOrNothing request_overPodLine⟩

/-- A document with half of a surrogate pair is not all or nothing: what its file held is lost. -/
theorem not_isAllOrNothing_halfImage :
    request overPodLine = .ok (.render overPod) ∧
      ¬ IsAllOrNothing {} overPod halfImage
        ((run {} overPodLine : StateM Workspace _) halfImage) := by
  refine ⟨request_overPodLine, fun h => ?_⟩
  have hexit : ((run {} overPodLine : StateM Workspace _) halfImage).1.exit.toOption = none := by
    decide +kernel
  have hfile : ((run {} overPodLine : StateM Workspace _) halfImage).2.root.fileAt? ["pod"]
      = some [] := by
    decide +kernel
  have hold : halfImage.root.fileAt? ["pod"] = some [111, 108, 100] := by decide +kernel
  obtain ⟨-, -, hfiles⟩ := h.2 fun hzero => by rw [hzero] at hexit; cases hexit
  rw [hfiles, hold] at hfile
  cases hfile

end Schematic.CommandLine
