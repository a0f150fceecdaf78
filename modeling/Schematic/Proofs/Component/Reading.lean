import Schematic.Component.Document
import Schematic.Proofs.Component.Plain

/-!
# What is read from plain data

A component is made of parts of the data that it is read from and of words of the program. So a
property of plain data that holds of these words passes from the data to the component. And the
problems of data are told by names of fields, by numbers and in words, whatever the data is.

One relation says both of a reader, and every way of putting readers together keeps it.
-/

namespace Schematic

open Value (ofOption ofList ofInt32 record)

namespace Json

variable {p : Json → Prop} {v : Value}

/-- Each item of plain data is plain. -/
lemma isPlain_of_mem_toValues {js : List Json} (hjs : EveryItem p js) (hv : v ∈ toValues js) :
    v.IsPlain p := by
  induction js with
  | nil => exact absurd hv List.not_mem_nil
  | cons j js ih =>
    rw [toValues, List.mem_cons] at hv
    rcases hv with rfl | hv
    · exact ⟨j, rfl, hjs.1⟩
    · exact ih hjs.2 hv

/-- Each entry of plain data is plain. -/
lemma isPlain_of_mem_toEntries {es : List (Text × Json)} {e : Value × Value} (hes : EveryEntry p es)
    (he : e ∈ toEntries es) : e.2.IsPlain p := by
  induction es with
  | nil => exact absurd he List.not_mem_nil
  | cons f es ih =>
    rw [toEntries, List.mem_cons] at he
    rcases he with rfl | he
    · exact ⟨f.2, rfl, hes.1⟩
    · exact ih hes.2 he

end Json

/-! ### Problems -/

/-- The texts of a problem have bytes. -/
structure Problem.IsUnicode (p : Problem) : Prop where
  path : ∀ step ∈ p.path, step.text.IsUnicode
  message : p.cause.message.IsUnicode

namespace Checked

variable {α β : Type} {R : α → Prop} {S : β → Prop}

/-- A value has a property, or its problems are told in texts that have bytes. -/
def Gives (R : α → Prop) : Checked α → Prop
  | .valid a => R a
  | .invalid ps => ∀ p ∈ ps, p.IsUnicode

lemma gives_fail {c : Cause} (h : c.message.IsUnicode) : (fail c : Checked α).Gives R :=
  List.forall_mem_singleton.mpr ⟨by simp, h⟩

lemma Gives.map {f : α → β} {r : Checked α} (h : r.Gives R) (hf : ∀ a, R a → S (f a)) :
    (f <$> r).Gives S := by
  cases r with
  | valid a => exact hf a h
  | invalid ps => exact h

/-- What is put together gives what its parts give together. -/
lemma Gives.seq {f : Checked (α → β)} {r : Checked α} (hf : f.Gives fun g => ∀ a, R a → S (g a))
    (h : r.Gives R) : (f <*> r).Gives S := by
  cases f with
  | valid g =>
    cases r with
    | valid a => exact hf a h
    | invalid ps => exact h
  | invalid ps =>
    cases r with
    | valid a => exact hf
    | invalid qs => exact List.forall_mem_append.mpr ⟨hf, h⟩

/-- A step whose name has bytes leaves problems that have bytes. -/
lemma Gives.under {r : Checked α} (h : r.Gives R) {step : PathStep} (hstep : step.text.IsUnicode) :
    (r.under step).Gives R := by
  cases r with
  | valid a => exact h
  | invalid ps =>
    refine List.forall_mem_map.mpr fun p hp => ⟨?_, (h p hp).message⟩
    exact List.forall_mem_cons.mpr ⟨hstep, (h p hp).path⟩

/-- A list gives what its items give. -/
lemma gives_list {rs : List (Checked α)} (h : ∀ r ∈ rs, r.Gives R) :
    (list rs).Gives fun as => ∀ a ∈ as, R a := by
  induction rs with
  | nil => exact fun a ha => absurd ha List.not_mem_nil
  | cons r rs ih =>
    obtain ⟨hr, hrs⟩ := List.forall_mem_cons.mp h
    have hcons : (List.cons <$> r).Gives fun g => ∀ as, (∀ a ∈ as, R a) → ∀ a ∈ g as, R a :=
      hr.map fun a ha as has => List.forall_mem_cons.mpr ⟨ha, has⟩
    exact hcons.seq (ih hrs)

end Checked

/-! ### Readers -/

namespace FieldReader

open Checked

variable {α : Type} {p : Json → Prop} {R : α → Prop} {read : FieldReader α}

/-- What is read from plain data of some kind has a property, and problems are told in texts that
have bytes. -/
def Keeps (p : Json → Prop) (read : FieldReader α) (R : α → Prop) : Prop :=
  ∀ dialect v, v.IsPlain p → (read dialect v).Gives R

lemma keeps_any : any.Keeps p (·.IsPlain p) := fun _ _ hv => hv

lemma keeps_text : text.Keeps p fun t => p (.text t) := by
  rintro d _ ⟨j, rfl, hj⟩
  cases j with
  | text t => exact hj
  | _ => exact gives_fail (Text.isUnicode_ofString _)

/-- An integer that is read keeps nothing of the data. -/
lemma keeps_int32 : int32.Keeps p fun _ => True := by
  rintro d _ ⟨j, rfl, -⟩
  cases j with
  | int n =>
    simp only [Json.toValue, int32]
    split
    · exact gives_fail (Text.isUnicode_ofString _)
    · split
      · exact gives_fail (Text.isUnicode_ofString _)
      · trivial
  | _ => exact gives_fail (Text.isUnicode_ofString _)

/-- A word gives a truth value. -/
lemma gives_truthOfWord (t : Text) : (truthOfWord t).Gives fun _ => True := by
  unfold truthOfWord
  split
  · exact gives_fail (Text.isUnicode_ofString _)
  · split
    · trivial
    · exact gives_fail (Text.isUnicode_ofString _)

/-- An integer gives a truth value. -/
lemma gives_truthOfInt (n : Int) : (truthOfInt n).Gives fun _ => True := by
  unfold truthOfInt
  split_ifs
  · trivial
  · trivial
  · exact gives_fail (Text.isUnicode_ofString _)
  · exact gives_fail (Text.isUnicode_ofString _)

/-- A truth value that is read keeps nothing of the data. -/
lemma keeps_bool : bool.Keeps p fun _ => True := by
  rintro d _ ⟨j, rfl, -⟩
  cases j with
  | bool b => trivial
  | text t => exact gives_truthOfWord t
  | int n => exact gives_truthOfInt n
  | float x =>
    simp only [Json.toValue, bool]
    split
    · exact gives_truthOfInt _
    · exact gives_fail (Text.isUnicode_ofString _)
  | _ => exact gives_fail (Text.isUnicode_ofString _)

/-- The choices are told in a text that has bytes if they have. -/
lemma isUnicode_choicesText {tokens : List Text} (h : ∀ t ∈ tokens, t.IsUnicode) :
    (choicesText tokens).IsUnicode := by
  have hquote (t : Text) (ht : t ∈ tokens) : Text.IsUnicode ("'" ++ t ++ "'") :=
    ((Text.isUnicode_ofString _).append (h t ht)).append (Text.isUnicode_ofString _)
  unfold choicesText
  split
  · simp [Text.IsUnicode]
  · next t ht => exact hquote t (List.mem_reverse.mp (ht ▸ List.mem_singleton_self t))
  · next last before _ ht =>
    have hmem (t : Text) (hmem : t ∈ last :: before) : t ∈ tokens := List.mem_reverse.mp (ht ▸ hmem)
    refine ((Text.isUnicode_join (Text.isUnicode_ofString _) ?_).append
      (Text.isUnicode_ofString _)).append (hquote last (hmem last List.mem_cons_self))
    refine List.forall_mem_map.mpr fun t ht => hquote t (hmem t ?_)
    exact List.mem_cons_of_mem last (List.mem_reverse.mp ht)

/-- A choice keeps nothing of the data. -/
lemma keeps_choice {all : List α} {token : α → Text} (h : ∀ a ∈ all, (token a).IsUnicode) :
    (choice all token).Keeps p fun _ => True := by
  have hnone : (fail (.notOneOf (all.map token)) : Checked α).Gives fun _ => True :=
    gives_fail
      ((Text.isUnicode_ofString _).append (isUnicode_choicesText (List.forall_mem_map.mpr h)))
  intro d v _
  unfold choice
  split
  · split
    · exact gives_fail (Text.isUnicode_ofString _)
    · split
      · trivial
      · exact hnone
  · exact hnone

/-- What may be missing keeps what its reader keeps. -/
lemma Keeps.optional (h : read.Keeps p R) : (optional read).Keeps p fun o => ∀ a ∈ o, R a := by
  intro d v hv
  unfold FieldReader.optional
  split
  · simp [Gives]
  · exact (h d _ hv).map fun a ha b hb => Option.mem_some.mp hb ▸ ha

/-- A list keeps what the reader of its items keeps. -/
lemma Keeps.list (h : read.Keeps p R) : (list read).Keeps p fun as => ∀ a ∈ as, R a := by
  rintro d _ ⟨j, rfl, hj⟩
  cases j with
  | array js =>
    simp only [Json.toValue, FieldReader.list, items?]
    refine gives_list (List.forall_mem_map.mpr fun q hq => ?_)
    have hplain := Json.isPlain_of_mem_toValues hj.2 (List.fst_mem_of_mem_zipIdx hq)
    exact (h d _ hplain).under (Text.isUnicode_ofInt q.2)
  | _ => exact gives_fail (by cases d <;> exact Text.isUnicode_ofString _)

end FieldReader

/-! ### Fields -/

namespace Fields

variable {α : Type} {p : Json → Prop} {R : α → Prop} {read : FieldReader α} {fs : Fields}

/-- The values of fields are plain data of some kind. -/
def ArePlain (p : Json → Prop) (fs : Fields) : Prop := ∀ e ∈ fs.entries, e.2.IsPlain p

lemma ArePlain.get? (h : fs.ArePlain p) {name : Text} {v : Value}
    (hv : Value.get? name fs.entries = some v) :
    v.IsPlain p := by
  obtain ⟨e, he, rfl⟩ := Option.map_eq_some_iff.mp hv
  exact h e (List.mem_of_find?_eq_some he)

/-- A needed field of plain data gives what its reader keeps. -/
lemma ArePlain.need (h : fs.ArePlain p) (name : String) (hread : read.Keeps p R) :
    (fs.need name read).Gives R := by
  rw [Fields.need]
  split
  · next v hv => exact (hread _ v (h.get? hv)).under (Text.isUnicode_ofString name)
  · exact List.forall_mem_singleton.mpr
      ⟨List.forall_mem_singleton.mpr (Text.isUnicode_ofString name), Text.isUnicode_ofString _⟩

/-- A field with a default gives what its reader keeps, if the default has it. -/
lemma ArePlain.take (h : fs.ArePlain p) (name : String) {default : α} (hdefault : R default)
    (hread : read.Keeps p R) : (fs.take name default read).Gives R := by
  rw [Fields.take]
  split
  · next v hv => exact (hread _ v (h.get? hv)).under (Text.isUnicode_ofString name)
  · exact hdefault

end Fields

/-- A record keeps what its fields give. -/
lemma FieldReader.keeps_record {α : Type} {p : Json → Prop} {R : α → Prop} (name : String)
    {read : Fields → Checked α} (h : ∀ fs : Fields, fs.ArePlain p → (read fs).Gives R) :
    (record name read).Keeps p R := by
  rintro d _ ⟨j, rfl, hj⟩
  cases j with
  | object es =>
    exact h ⟨d, Json.toEntries es⟩ fun e he => Json.isPlain_of_mem_toEntries hj.2 he
  | _ =>
    refine Checked.gives_fail ?_
    cases d with
    | values => exact (Text.isUnicode_ofString _).append (Text.isUnicode_ofString name)
    | jsonText => exact Text.isUnicode_ofString _

/-! ### Parts of a component -/

open FieldReader Value

variable {p : Json → Prop}

lemma ParameterType.keeps_read : ParameterType.read.Keeps p fun _ => True :=
  keeps_choice fun a _ => by cases a <;> exact Text.isUnicode_ofString _

lemma AccessMode.keeps_read : AccessMode.read.Keeps p fun _ => True :=
  keeps_choice fun a _ => by cases a <;> exact Text.isUnicode_ofString _

lemma SharingPolicy.keeps_read : SharingPolicy.read.Keeps p fun _ => True :=
  keeps_choice fun a _ => by cases a <;> exact Text.isUnicode_ofString _

lemma PortProtocol.keeps_read : PortProtocol.read.Keeps p fun _ => True :=
  keeps_choice fun a _ => by cases a <;> exact Text.isUnicode_ofString _

section

variable (hp : Json.HoldsOfWords p)
include hp

/-- A parameter that is read from plain data is plain. -/
lemma Parameter.keeps_read : Parameter.read.Keeps p (·.toValue.IsPlain p) := by
  refine keeps_record _ fun fs hfs => ?_
  refine .seq (.seq (.seq (.seq (.map (hfs.need _ keeps_text) ?_)
    (hfs.take _ (by simp) keeps_text.optional)) (hfs.need _ ParameterType.keeps_read))
    (hfs.take _ trivial keeps_bool)) (hfs.take _ ⟨.null, rfl, hp.null⟩ keeps_any)
  intro name hname description hdescription type _ required _ default hdefault
  exact (isPlain_iff hp).mpr ⟨hname, hdescription, hdefault⟩

/-- A setting that is read from plain data is plain. -/
lemma WorkloadSetting.keeps_read : WorkloadSetting.read.Keeps p (·.toValue.IsPlain p) := by
  refine keeps_record _ fun fs hfs => ?_
  refine .seq (.seq (.seq (.seq (.seq (.map (hfs.need _ keeps_text) ?_)
    (hfs.take _ (by simp) keeps_text.optional)) (hfs.need _ ParameterType.keeps_read))
    (hfs.take _ trivial keeps_bool)) (hfs.take _ ⟨.null, rfl, hp.null⟩ keeps_any))
    (hfs.take _ (by simp) keeps_text.optional)
  intro name hname description hdescription type _ required _ default hdefault fromParam hfromParam
  exact (isPlain_iff hp).mpr ⟨hname, hdescription, hdefault, hfromParam⟩

/-- A variable that is read from plain data is plain. -/
lemma Env.keeps_read : Env.read.Keeps p (·.toValue.IsPlain p) := by
  refine keeps_record _ fun fs hfs => ?_
  refine .seq (.seq (.map (hfs.need _ keeps_text) ?_) (hfs.take _ (by simp) keeps_text.optional))
    (hfs.take _ (by simp) keeps_text.optional)
  intro name hname value hvalue fromParam hfromParam
  exact (isPlain_iff hp).mpr ⟨hname, hvalue, hfromParam⟩

lemma Port.keeps_read : Port.read.Keeps p (·.toValue.IsPlain p) := by
  refine keeps_record _ fun fs hfs => ?_
  refine .seq (.seq (.map (hfs.need _ keeps_text) ?_) (hfs.need _ keeps_int32))
    (hfs.take _ trivial PortProtocol.keeps_read)
  exact fun name hname containerPort _ protocol _ => (isPlain_iff hp).mpr hname

lemma Exec.keeps_read : Exec.read.Keeps p (·.toValue.IsPlain p) :=
  keeps_record _ fun _ hfs => .map (hfs.need _ keeps_text.list) fun _ => (isPlain_iff hp).mpr

lemma HttpHeader.keeps_read : HttpHeader.read.Keeps p (·.toValue.IsPlain p) := by
  refine keeps_record _ fun fs hfs => ?_
  refine .seq (.map (hfs.need _ keeps_text) ?_) (hfs.need _ keeps_text)
  exact fun name hname value hvalue => (isPlain_iff hp).mpr ⟨hname, hvalue⟩

lemma HttpGet.keeps_read : HttpGet.read.Keeps p (·.toValue.IsPlain p) := by
  refine keeps_record _ fun fs hfs => ?_
  refine .seq (.seq (.map (hfs.need _ keeps_text) ?_) (hfs.need _ keeps_int32))
    (hfs.take _ (by simp) (HttpHeader.keeps_read hp).list)
  exact fun path hpath port _ headers hheaders => (isPlain_iff hp).mpr ⟨hpath, hheaders⟩

lemma TcpSocket.keeps_read : TcpSocket.read.Keeps p (·.toValue.IsPlain p) :=
  keeps_record _ fun _ hfs => .map (hfs.need _ keeps_int32) fun _ _ => isPlain_toValue hp _

/-- A probe that is read from plain data is plain. -/
lemma HealthProbe.keeps_read : HealthProbe.read.Keeps p (·.toValue.IsPlain p) := by
  refine keeps_record _ fun fs hfs => ?_
  refine .seq (.seq (.seq (.seq (.seq (.seq (.seq
    (.map (hfs.take _ (by simp) (Exec.keeps_read hp).optional) ?_)
    (hfs.take _ (by simp) (HttpGet.keeps_read hp).optional))
    (hfs.take _ (by simp) (TcpSocket.keeps_read hp).optional))
    (hfs.take _ trivial keeps_int32)) (hfs.take _ trivial keeps_int32))
    (hfs.take _ trivial keeps_int32)) (hfs.take _ trivial keeps_int32))
    (hfs.take _ trivial keeps_int32)
  intro exec hexec httpGet hget tcpSocket _ delay _ period _ timeout _ successes _ failures _
  exact (isPlain_iff hp).mpr ⟨hexec, hget⟩

lemma Requirement.keeps_read (name : String) :
    (Requirement.read name).Keeps p (·.toValue.IsPlain p) :=
  keeps_record _ fun _ hfs => .map (hfs.need _ keeps_text) fun _ => (isPlain_iff hp).mpr

lemma Path.keeps_read : Path.read.Keeps p (·.toValue.IsPlain p) := by
  refine keeps_record _ fun fs hfs => ?_
  refine .seq (.seq (.seq (.map (hfs.need _ keeps_text) ?_) (hfs.need _ keeps_text))
    (hfs.take _ trivial AccessMode.keeps_read)) (hfs.take _ trivial SharingPolicy.keeps_read)
  exact fun name hname path hpath mode _ policy _ => (isPlain_iff hp).mpr ⟨hname, hpath⟩

/-- Resources that are read from plain data are plain. -/
lemma Resources.keeps_read : Resources.read.Keeps p (·.toValue.IsPlain p) := by
  have hword (s : String) : (Requirement.mk (Text.ofString s)).toValue.IsPlain p :=
    (Requirement.isPlain_iff hp).mpr (hp.word s)
  refine keeps_record _ fun fs hfs => ?_
  refine .seq (.seq (.seq (.map (hfs.take _ (hword _) (Requirement.keeps_read hp _)) ?_)
    (hfs.take _ (hword _) (Requirement.keeps_read hp _)))
    (hfs.take _ (hword _) (Requirement.keeps_read hp _)))
    (hfs.take _ (by simp) (Path.keeps_read hp).list)
  intro cpu hcpu memory hmemory gpu hgpu paths hpaths
  exact (isPlain_iff hp).mpr ⟨hcpu, hmemory, hgpu, hpaths⟩

lemma Resources.isPlain_toValue_usual : (Resources.toValue {}).IsPlain p := by
  simp [isPlain_iff hp, Requirement.isPlain_iff hp, hp.word]

/-- A container that is read from plain data is plain. -/
lemma Container.keeps_read : Container.read.Keeps p (·.toValue.IsPlain p) := by
  refine keeps_record _ fun fs hfs => ?_
  refine .seq (.seq (.seq (.seq (.seq (.seq
    (.map (hfs.need _ keeps_text) ?_) (hfs.need _ keeps_text))
    (hfs.take _ (Resources.isPlain_toValue_usual hp) (Resources.keeps_read hp)))
    (hfs.take _ (by simp) (Env.keeps_read hp).list))
    (hfs.take _ (by simp) (Port.keeps_read hp).list))
    (hfs.take _ (by simp) (HealthProbe.keeps_read hp).optional))
    (hfs.take _ (by simp) (HealthProbe.keeps_read hp).optional)
  intro name hname image himage resources hresources env henv ports hports liveness hliveness
    readiness hreadiness
  exact (isPlain_iff hp).mpr ⟨hname, himage, hresources, henv, hports, hliveness, hreadiness⟩

/-- A component that is read from plain data is plain data of the same kind. -/
theorem Component.keeps_read : Component.read.Keeps p (·.toValue.IsPlain p) := by
  refine keeps_record _ fun fs hfs => ?_
  refine .seq (.seq (.seq (.seq (.seq (.map (hfs.take _ (hp.word _) keeps_text) ?_)
    (hfs.take _ (hp.word _) keeps_text)) (hfs.take _ (hp.word _) keeps_text))
    (hfs.take _ (by simp) (Parameter.keeps_read hp).list))
    (hfs.take _ (by simp) (Container.keeps_read hp).list))
    (hfs.take _ (by simp) (WorkloadSetting.keeps_read hp).list)
  intro workloadType hworkload osType hos arch harch parameters hparameters containers hcontainers
    settings hsettings
  exact (isPlain_iff hp).mpr ⟨hworkload, hos, harch, hparameters, hcontainers, hsettings⟩

end

/-- A problem has bytes if its path and its cause have. -/
lemma Problem.IsUnicode.text {q : Problem} (h : q.IsUnicode) : q.text.IsUnicode := by
  refine (Text.IsUnicode.append ?_ (Text.isUnicode_ofString _)).append h.message
  rw [place]
  split
  · exact Text.isUnicode_ofString _
  · exact Text.isUnicode_join (Text.isUnicode_ofString _) (List.forall_mem_map.mpr h.path)

/-- What a value gives: a component that is plain data of the value's kind, or an error that is told
in texts which have bytes. -/
theorem Component.ofValue_cases (hp : Json.HoldsOfWords p) {v : Value} (hv : v.IsPlain p) :
    (∃ c, ofValue v = .ok c ∧ c.toValue.IsPlain p) ∨
      ∃ e, ofValue v = .error e ∧ e.message.IsUnicode := by
  have hkind : (ReadError.notMap v).message.IsUnicode :=
    (Text.isUnicode_ofString _).append (by cases v <;> exact Text.isUnicode_ofString _)
  unfold ofValue
  split
  · next entries =>
    have hread := keeps_read hp .values _ hv
    cases hresult : Component.read .values (.map entries) with
    | valid c =>
      rw [hresult] at hread
      exact .inl ⟨c, rfl, hread⟩
    | invalid ps =>
      rw [hresult] at hread
      refine .inr ⟨.problems ps, rfl, (Text.isUnicode_ofString _).append ?_⟩
      exact Text.isUnicode_join (Text.isUnicode_ofString _)
        (List.forall_mem_map.mpr fun q hq => (hread q hq).text)
  · exact .inr ⟨_, rfl, hkind⟩

/-- A component has the properties of the value that it is read from. -/
lemma Component.isPlain_of_ofValue (hp : Json.HoldsOfWords p) {v : Value} {c : Component}
    (hv : v.IsPlain p) (hc : ofValue v = .ok c) : c.toValue.IsPlain p := by
  rcases ofValue_cases hp hv with ⟨c', hc', h⟩ | ⟨e, he, -⟩
  · rw [hc] at hc'
    cases hc'
    exact h
  · rw [hc] at he
    cases he

/-- A value that gives no component is refused in a text that has bytes. -/
lemma Component.isUnicode_of_ofValue (hp : Json.HoldsOfWords p) {v : Value} {e : ReadError}
    (hv : v.IsPlain p) (he : ofValue v = .error e) : e.message.IsUnicode := by
  rcases ofValue_cases hp hv with ⟨c, hc, -⟩ | ⟨e', he', h⟩
  · rw [he] at hc
    cases hc
  · rw [he] at he'
    cases he'
    exact h

end Schematic
