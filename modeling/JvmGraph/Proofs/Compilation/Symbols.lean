import JvmGraph.Proofs.Compilation.Completeness
import JvmGraph.Proofs.Symbol.Schemes

/-!
# Symbols of definitions

In a compiled program no two definitions have the same symbol, if names are such as are not mistaken for each other and
the classes are told apart by their names with `_` for `/`, after which their tables are called.
-/

namespace JvmGraph

open Steps Load World JvmGraph.Symbol Text List Program MethodType ClassFile Option

/-! ## Names in class files -/

namespace ClassFile

def fieldNames (file : ClassFile) : List String := file.fields.filterMap fun f => (file.nameOf f).toOption

def methodNames (file : ClassFile) : List (String × String) :=
  file.methods.filterMap fun m => (file.nameOf m).toOption.bind fun n => (file.descriptorOf m).toOption.map fun d =>
    (n, d)

structure IsNameable (file : ClassFile) (name : String) : Prop where
  className : IsClassName name
  fields : ∀ n ∈ file.fieldNames, IsMemberName n ∧ n ≠ classObjectName
  methods : ∀ m ∈ file.methodNames, IsMemberName m.1 ∧ ∀ type ∈ (MethodType.parse m.2).toOption, ∀ k ∈ type.classNames,
    IsClassName k
  fields_nodup : file.fieldNames.Nodup
  methods_nodup : file.methodNames.Nodup

instance (file : ClassFile) (name : String) : Decidable (file.IsNameable name) :=
  decidable_of_iff (IsClassName name ∧ (∀ n ∈ file.fieldNames, IsMemberName n ∧ n ≠ classObjectName) ∧
    (∀ m ∈ file.methodNames, IsMemberName m.1 ∧ ∀ type ∈ (MethodType.parse m.2).toOption, ∀ k ∈ type.classNames,
      IsClassName k) ∧ file.fieldNames.Nodup ∧ file.methodNames.Nodup)
    ⟨fun h => ⟨h.1, h.2.1, h.2.2.1, h.2.2.2.1, h.2.2.2.2⟩,
      fun h => ⟨h.className, h.fields, h.methods, h.fields_nodup, h.methods_nodup⟩⟩

variable {file : ClassFile} {f m : Member} {name descriptor : String}

lemma mem_fieldNames (hf : f ∈ file.fields) (hn : file.nameOf f = .ok name) : name ∈ file.fieldNames :=
  mem_filterMap.2 ⟨f, hf, by rw [hn]; rfl⟩

lemma mem_methodNames (hm : m ∈ file.methods) (hn : file.nameOf m = .ok name)
    (hd : file.descriptorOf m = .ok descriptor) :
    (name, descriptor) ∈ file.methodNames :=
  mem_filterMap.2 ⟨m, hm, by rw [hn, hd]; rfl⟩

end ClassFile

lemma eq_of_nodup_filterMap {α β : Type} {f : α → Option β} {l : List α} {i j : Nat} {a b : α} {name : β}
    (h : (l.filterMap f).Nodup) (hi : l[i]? = some a) (hj : l[j]? = some b) (ha : f a = some name)
    (hb : f b = some name) :
    i = j := by
  have hpair := List.pairwise_filterMap.1 h
  obtain ⟨hlti, rfl⟩ := List.getElem?_eq_some_iff.1 hi
  obtain ⟨hltj, rfl⟩ := List.getElem?_eq_some_iff.1 hj
  rcases lt_trichotomy i j with hlt | heq | hlt
  · exact absurd rfl (List.pairwise_iff_getElem.1 hpair i j hlti hltj hlt name ha name hb)
  · exact heq
  · exact absurd rfl (List.pairwise_iff_getElem.1 hpair j i hltj hlti hlt name hb name ha)

def Program.IsDefined (q : Program) (e : EntityId) : Prop :=
  (q.entityAt e).initializer?.isSome ∨ (q.graphAt? e).isSome

inductive Symbol.Scheme where
  | vtable
  | member
  | table (sort : TableSort)
  | record
  | literal

def Symbol.Scheme.head : Scheme → List Char
  | .vtable => ['_', 'Z', 'T']
  | .member => ['_', 'Z', 'N']
  | .table .methods => ['_', 'M', 'T']
  | .table .fields => ['_', 'F', 'L']
  | .table .interfaces => ['_', 'I', 'F']
  | .record => ['_', 'U', 't']
  | .literal => ['_', 'S', 't']

lemma Symbol.Scheme.head_injective {s s' : Scheme} (h : s.head = s'.head) : s = s' := by
  cases s with
  | table sort => cases sort <;> cases s' with
    | table sort' => cases sort' <;> simp [head] at h ⊢
    | _ => simp [head] at h
  | _ => cases s' with
    | table sort' => cases sort' <;> simp [head] at h
    | _ => simp [head] at h ⊢

namespace World

variable {w : World} {im : Image} {q : Program} {c : ClassId} {e e' : EntityId} {source : ClassSource}
    {file : ClassFile}
  {symbol : String} {s : Scheme}

inductive IsMemberOf (w : World) (c : ClassId) (file : ClassFile) (e : EntityId) : String → Option MethodType → Prop
  | classObject (h : (w.classAt c).classObject? = some e) : IsMemberOf w c file e classObjectName none
  | field (i : Nat) (f : Member) (hf : file.fields[i]? = some f) (he : (w.classAt c).members[i]? = some e)
    (name : String)
      (hn : file.nameOf f = .ok name) : IsMemberOf w c file e name none
  | method (i : Nat) (m : Member) (hm : file.methods[i]? = some m)
      (he : (w.classAt c).members[file.fields.length + i]? = some e) (name d : String) (type : MethodType)
      (hn : file.nameOf m = .ok name) (hd : file.descriptorOf m = .ok d) (ht : MethodType.parse d = .ok type) :
      IsMemberOf w c file e name (some type)

lemma IsMemberOf.unique {name : String} {type? : Option MethodType} {owner : String} (hfile : file.IsNameable owner)
    (h : IsMemberOf w c file e name type?) (h' : IsMemberOf w c file e' name type?) : e = e' := by
  cases h with
  | classObject h =>
    cases h' with
    | classObject h' => exact some.inj (h.symm.trans h')
    | field i f hf he _ hn =>
      exact absurd rfl (hfile.fields _ (mem_fieldNames (mem_of_getElem? hf) hn)).2
  | field i f hf he _ hn =>
    cases h' with
    | classObject h' => exact absurd rfl (hfile.fields _ (mem_fieldNames (mem_of_getElem? hf) hn)).2
    | field j g hg he' _ hn' =>
      obtain rfl := eq_of_nodup_filterMap hfile.fields_nodup hf hg (by rw [hn]; rfl) (by rw [hn']; rfl)
      exact some.inj (he.symm.trans he')
  | method i m hm he _ d type hn hd ht =>
    cases h' with
    | method j m' hm' he' _ d' _ hn' hd' ht' =>
      obtain rfl : d = d' := (text_of_parse ht).symm.trans (text_of_parse ht')
      obtain rfl := eq_of_nodup_filterMap hfile.methods_nodup hm hm' (by rw [hn, hd]; rfl) (by rw [hn', hd']; rfl)
      exact some.inj (he.symm.trans he')

inductive Named (w : World) (im : Image) (e : EntityId) (symbol : String) : Scheme → Prop
  | vtable (c : ClassId) (h : (w.classAt c).vtable? = some e) (hs : mangleVTable (w.classAt c).name = .ok symbol) :
      Named w im e symbol .vtable
  | member (c : ClassId) (file : ClassFile) (hfile : (w.classAt c).file? = some file) (name : String)
      (type? : Option MethodType) (h : IsMemberOf w c file e name type?) (kind : MemberKind)
      (hs : mangleMember (w.classAt c).name name kind = .ok symbol)
      (hread : readSymbol .byKey symbol.toList = some ⟨(w.classAt c).name, name, type?⟩) : Named w im e symbol .member
  | table (c : ClassId) (sort : TableSort) (hc : w.HasClass c)
      (h : w.program.classObjectField? c sort.field = some (.address e))
        (hs : symbol = sort.nameFor (w.classAt c).name) :
      Named w im e symbol (.table sort)
  | record (i : Nat) (bytes : Bytes) (h : im.strings.records[i]? = some (bytes, e))
    (hs : symbol = "_Utf" ++ Nat.repr i) :
      Named w im e symbol .record
  | literal (i : Nat) (bytes : Bytes) (h : im.strings.literals[i]? = some (bytes, e))
    (hs : symbol = "_Str" ++ Nat.repr i) :
      Named w im e symbol .literal

lemma Named.take (h : Named w im e symbol s) : symbol.toList.take 3 = s.head := by
  cases h with
  | vtable c h hs => exact take_mangleVTable hs
  | member c file hfile name type? h kind hs hread => exact take_mangleMember hs
  | table c sort hc h hs => rw [hs, TableSort.nameFor, String.toList_append]; cases sort <;> rfl
  | record i bytes h hs => rw [hs, String.toList_append]; rfl
  | literal i bytes h hs => rw [hs, String.toList_append]; rfl

lemma Named.unique {s' : Scheme} (hw : w.InOrder source)
    (hnames : ∀ c file, (w.classAt c).file? = some file → file.IsNameable (w.classAt c).name)
    (htags : ∀ c c', w.HasClass c → w.HasClass c' →
      substituted '/' '_' (w.classAt c).name = substituted '/' '_' (w.classAt c').name → c = c')
    (h : Named w im e symbol s) (h' : Named w im e' symbol s') : e = e' := by
  obtain rfl : s = s' := Scheme.head_injective (h.take.symm.trans h'.take)
  have hname : ∀ c c', w.HasClass c → w.HasClass c' → (w.classAt c).name = (w.classAt c').name →
    c = c' :=
    fun c c' hc hc' hn => htags c c' hc hc' (by rw [hn])
  cases h with
  | vtable c h hs =>
    cases h' with
    | vtable c' h' hs' =>
      have hc := hasClass_of_table (.inl h)
      have hc' := hasClass_of_table (.inl h')
      obtain ⟨file, -, hfile⟩ := (hw.ledger.known c hc).file
      obtain ⟨file', -, hfile'⟩ := (hw.ledger.known c' hc').file
      obtain rfl := hname c c' hc hc'
        ((hnames c file hfile).className.eq_of_mangleVTable (hnames c' file' hfile').className hs hs')
      exact some.inj (h.symm.trans h')
  | member c file hfile name type? h kind hs hread =>
    cases h' with
    | member c' file' hfile' name' type?' h' kind' hs' hread' =>
      obtain ⟨hn, rfl, rfl⟩ := Reading.mk.inj (some.inj (hread.symm.trans hread'))
      obtain rfl := hname c c' (hasClass_of_file hfile) (hasClass_of_file hfile') hn
      obtain rfl : file = file' := some.inj (hfile.symm.trans hfile')
      exact h.unique (hnames c file hfile) h'
  | table c sort hc h hs =>
    cases h' with
    | table c' _ hc' h' hs' =>
      have htag : sort.mark ++ substituted '/' '_' _ = sort.mark ++ substituted '/' '_' _ := hs.symm.trans hs'
      obtain rfl := htags c c' hc hc' ((String.append_right_inj _).1 htag)
      exact Initializer.address.inj (some.inj (h.symm.trans h'))
  | record i bytes h hs =>
    cases h' with
    | record j bytes' h' hs' =>
      obtain rfl : i = j := repr_injective ((String.append_right_inj _).1 (hs.symm.trans hs'))
      exact congrArg Prod.snd (some.inj (h.symm.trans h'))
  | literal i bytes h hs =>
    cases h' with
    | literal j bytes' h' hs' =>
      obtain rfl : i = j := repr_injective ((String.append_right_inj _).1 (hs.symm.trans hs'))
      exact congrArg Prod.snd (some.inj (h.symm.trans h'))

lemma InOrder.isMemberOf_field (hw : w.InOrder source) (he : e ∈ (w.classAt c).members)
    (hi : (w.program.entityAt e).initializer?.isSome) : ∃ file name, (w.classAt c).file? = some file ∧
      IsMemberOf w c file e name none ∧ (∃ f ∈ file.fields, file.nameOf f = .ok name) ∧
      mangleMember (w.classAt c).name name .field = .ok (w.program.entityAt e).symbol := by
  obtain ⟨-, file, hfin⟩ := hw.ledger.finished c (hw.finalized_of_member he)
  obtain ⟨fields, declared, standIns, hm, hf, hd, hs⟩ := hfin.composed
  have hdeclared : (∀ e ∈ declared, (w.program.entityAt e).initializer? = none) ∧ _ :=
    (forall₂_and_left declared file.methods).1 (hd.flip.imp fun e m h => ⟨h.initializer, h⟩)
  have hfield : e ∈ fields := by
    rw [hm, mem_append, mem_append] at he
    rcases he with (he | he) | he
    · exact he
    · simp [hdeclared.1 e he] at hi
    · simp [(hs e he).initializer] at hi
  obtain ⟨i, hlt, rfl⟩ := getElem_of_mem hfield
  have hlt' : i < file.fields.length := hf.length_eq ▸ hlt
  have hof : w.FieldOf c file (file.fields[i]) fields[i] := (forall₂_iff_get.1 hf).2 i hlt' hlt
  refine ⟨file, _, hfin.loaded, .field i _ (getElem?_eq_getElem hlt') ?_ _ hof.name,
    ⟨_, getElem_mem hlt', hof.name⟩, hof.symbol⟩
  rw [hm, append_assoc, getElem?_append_left hlt, getElem?_eq_getElem hlt]

lemma InOrder.isMemberOf_method (hw : w.InOrder source) (hg : (w.program.graphAt? e).isSome) :
    ∃ c file name type isStatic, (w.classAt c).file? = some file ∧ w.HasEntity e ∧
      IsMemberOf w c file e name (some type) ∧
      (∃ m ∈ file.methods, ∃ d, file.nameOf m = .ok name ∧ file.descriptorOf m = .ok d ∧ parse d = .ok type) ∧
      mangleMember (w.classAt c).name name (.method type isStatic) = .ok (w.program.entityAt e).symbol := by
  obtain ⟨c, file, member, hc, hx, hfile, hb, hbody⟩ := hw.ledger.graph e hg
  obtain ⟨-, file', hfin⟩ := hw.ledger.finished c hc
  obtain rfl : file' = file := some.inj (hfin.loaded.symm.trans hfile)
  obtain ⟨fields, declared, standIns, hm, hf, hd, hs⟩ := hfin.composed
  rw [bodies_eq_zip hm hf hd hs] at hb
  obtain ⟨i, hlt, hi⟩ := getElem_of_mem hb
  rw [getElem_zip, Prod.mk.injEq] at hi
  rw [length_zip] at hlt
  have hlt1 : i < file'.methods.length := by omega
  have hlt2 : i < declared.length := by omega
  have hof : w.MethodOf c file' (file'.methods[i]) declared[i] := (forall₂_iff_get.1 hd).2 i hlt1 hlt2
  rw [hi.2] at hof
  obtain ⟨m, hmethod, hdesc, htype, -, hsymbol⟩ := hof.method
  refine ⟨c, file', _, m.type, _, hfile, hof.has, .method i _ (getElem?_eq_getElem hlt1) ?_ _ _ _ hof.name hdesc htype,
    ⟨_, getElem_mem hlt1, _, hof.name, hdesc, htype⟩, hsymbol⟩
  rw [hm, append_assoc, hf.length_eq, getElem?_append_right (by omega), Nat.add_sub_cancel_left,
    getElem?_append_left hlt2, getElem?_eq_getElem hlt2, hi.2]

lemma Named.of_shared (hs : im.Shared e) (hi : (im.program.entityAt e).initializer?.isSome) :
    ∃ s, Named w im e (im.program.entityAt e).symbol s := by
  cases hs with
  | function f h => rw [h] at hi; cases hi
  | primitive k h => rw [h] at hi; cases hi
  | record i bytes hb h => exact ⟨_, .record i bytes hb (by rw [h]; rfl)⟩
  | literal i bytes hb h => exact ⟨_, .literal i bytes hb (by rw [h]; rfl)⟩

lemma InOrder.named (hw : w.InOrder source) (h : w.image.Lowers im)
    (hnames : ∀ c file, (w.classAt c).file? = some file → file.IsNameable (w.classAt c).name)
    (he : w.HasEntity e)
    (hi : (w.program.entityAt e).initializer?.isSome) : ∃ s, Named w im e (w.program.entityAt e).symbol s := by
  cases hw.ledger.origin e he with
  | vtable c hv => exact ⟨_, .vtable c hv ((hw.ledger.known c (hasClass_of_table (.inl hv))).vtable e hv).2.1⟩
  | classObject c ho =>
    have hknown := hw.ledger.known c (hasClass_of_table (.inr ho))
    obtain ⟨file, -, hfile⟩ := hknown.file
    have hsymbol := (hknown.classObject e ho).2.1
    exact ⟨_, .member c file hfile _ _ (.classObject ho) _ hsymbol
      ((hnames c file hfile).className.read_field ⟨by decide, by decide⟩ hsymbol)⟩
  | member c hm =>
    obtain ⟨file, name, hfile, hof, ⟨f, hf, hn⟩, hsymbol⟩ := hw.isMemberOf_field hm hi
    have hnameable := hnames c file hfile
    exact ⟨_, .member c file hfile _ _ hof _ hsymbol
      (hnameable.className.read_field (hnameable.fields name (mem_fieldNames hf hn)).1 hsymbol)⟩
  | table c sort hc hx hfield =>
    obtain ⟨-, file, hfin⟩ := hw.ledger.finished c hc
    obtain ⟨-, entries, hat⟩ := hfin.table hx hfield
    exact ⟨_, .table c sort (hw.sound.hasClass (.inl hc)) hfield (by rw [hat]; rfl)⟩
  | shared hs =>
    have hsame := Entity.eq_of_decl hs.method? (h.redrawn.entity e he)
    rw [show w.program.entityAt e = _ from hsame.symm] at hi ⊢
    exact Named.of_shared (h.shared he hs) hi
  | hidden hf hnone => simp [hnone] at hi

lemma Delivers.named (h : Delivers w im q) (hw : w.InOrder source)
    (hnames : ∀ c file, (w.classAt c).file? = some file → file.IsNameable (w.classAt c).name) (he : q.IsDefined e) :
    ∃ s, Named w im e (q.entityAt e).symbol s := by
  rcases he with hi | hg
  · have hx : ¬ w.program.IsExternVTable e := by
      intro hx
      rw [h.initializer?_extern hx] at hi; cases hi
    by_cases hold : w.HasEntity e
    · rw [Entity.initializer?_eq (h.decl_eq hold hx)] at hi
      rw [h.symbol_eq hold]; exact hw.named h.lowers hnames hold hi
    · have hhas : q.HasEntity e := by
        by_contra hno
        rw [entityAt_of_not _ e hno] at hi; cases hi
      have hsame : q.entityAt e = im.program.entityAt e := by
        rw [h.program, entityAt_dropExternVTables, if_neg (h.isExternVTable_iff.not.2 hx)]
      rw [hsame] at hi ⊢
      exact Named.of_shared ((h.lowers.new e (h.hasEntity_iff.1 hhas)).resolve_left hold) hi
  · rw [h.graph_isSome] at hg
    obtain ⟨c, file, name, type, isStatic, hfile, hhas, hof, ⟨m, hm, d, hn, hd, ht⟩, hsymbol⟩ := hw.isMemberOf_method hg
    have hnameable := hnames c file hfile
    rw [h.symbol_eq hhas]
    obtain ⟨hname, htypes⟩ := hnameable.methods _ (mem_methodNames hm hn hd)
    exact ⟨_, .member c file hfile _ _ hof _ hsymbol
      (hnameable.className.read_method hname ht (htypes type (by rw [ht]; rfl)) hsymbol)⟩

end World

/-- In a compiled program no two definitions have the same symbol, if the names of classes and members are not to be
mistaken, no class declares a member twice, and no two classes have the same name but for `/` and `_`. -/
theorem definitions_distinct (source : ClassSource) (root : String) (flavour : Flavour) (result : Compilation)
    (h : compile source root flavour = .ok result)
    (hnames : ∀ c file, (result.program.classAt c).file? = some file → file.IsNameable (result.program.classAt c).name)
    (htags : ∀ c c', result.program.HasClass c → result.program.HasClass c' →
      substituted '/' '_' (result.program.classAt c).name = substituted '/' '_' (result.program.classAt c').name →
      c = c') :
    ∀ e e', result.program.IsDefined e → result.program.IsDefined e' →
      (result.program.entityAt e).symbol = (result.program.entityAt e').symbol → e = e' := by
  obtain ⟨w₀, w, im, taken, built, -, -, hw, -, hq⟩ := compile_delivers h
  simp only [hq.classAt] at hnames htags
  simp only [Program.HasClass, hq.classes] at htags
  intro e e' he he' hsymbol
  obtain ⟨s, hs⟩ := hq.named hw.toInOrder hnames he
  obtain ⟨s', hs'⟩ := hq.named hw.toInOrder hnames he'
  rw [← hsymbol] at hs'
  exact hs.unique hw.toInOrder hnames htags hs'

lemma Program.mem_classes {p : Program} {c : ClassId} (hc : p.HasClass c) : p.classAt c ∈ p.classes.toList := by
  rw [classAt, Array.getD_eq_getD_getElem?, Array.getElem?_eq_getElem hc]
  exact Array.getElem_mem_toList _

def overloads : ClassSource :=
  .ofDrafts [
    { name := "a/b", methods := [⟨0x9, "m", "()V", some [0xb1]⟩, ⟨0x9, "m", "(La/b;)V", some [0xb1]⟩,
        ⟨0x8, "<clinit>", "()V", some [0xb1]⟩] },
    { name := "R", super? := some "a/b" }]

/-- All definitions of this program have symbols of their own. -/
theorem definitions_distinct_overloads :
    ∃ result, compile overloads "R" .simple = .ok result ∧
      (∀ c file, (result.program.classAt c).file? = some file → file.IsNameable (result.program.classAt c).name) ∧
      (result.program.graphAt? ⟨12⟩).isSome ∧ (result.program.graphAt? ⟨13⟩).isSome ∧
      (result.program.entityAt ⟨12⟩).name = (result.program.entityAt ⟨13⟩).name ∧
      (result.program.entityAt ⟨12⟩).symbol ≠ (result.program.entityAt ⟨13⟩).symbol := by
  have run : ((compile overloads "R" .simple).toOption.any fun result =>
      let p := result.program
      decide ((∀ info ∈ p.classes.toList, ∀ file ∈ info.file?, file.IsNameable info.name) ∧
        (∀ i < p.classes.size, ∀ j < p.classes.size,
          substituted '/' '_' (p.classAt ⟨i⟩).name = substituted '/' '_' (p.classAt ⟨j⟩).name → i = j) ∧
        (p.graphAt? ⟨12⟩).isSome ∧ (p.graphAt? ⟨13⟩).isSome ∧
        (p.entityAt ⟨12⟩).name = (p.entityAt ⟨13⟩).name)) = true := by
    decide +kernel
  obtain ⟨result, h, run⟩ := ok_of_any run
  obtain ⟨hnameable, htags, hgraph, hgraph', hname⟩ := of_decide_eq_true run
  have hnames : ∀ c file, (result.program.classAt c).file? = some file →
    file.IsNameable (result.program.classAt c).name :=
    fun c file hfile => hnameable _ (mem_classes (hasClass_of_file hfile)) file hfile
  refine ⟨result, h, hnames, hgraph, hgraph', hname, fun hs => ?_⟩
  have heq := definitions_distinct _ _ _ _ h hnames
    (fun c c' hc hc' ht => congrArg ClassId.mk (htags c.index hc c'.index hc' ht)) ⟨12⟩ ⟨13⟩ (.inr hgraph)
      (.inr hgraph') hs
  cases heq

end JvmGraph
