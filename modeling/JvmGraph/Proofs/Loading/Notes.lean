import JvmGraph.Proofs.Loading.Construction
import JvmGraph.Proofs.Loading.MemberSearch

/-!
# Notes on constants
A class or member that was found for a constant is noted with the class, and a later question about the constant is
answered from the note. What a note says would be found again: a class keeps its name and stays finalized, and the
search for a member gives the same in all later worlds. There is one exception. A question that asks for another sort
of member than the constant names is an error, unless the constant is noted: then the note answers.
-/

namespace JvmGraph

open Steps Load World List Session ConstantPool Option

variable {α β : Type} {name : String} {t : TypeRef} {ref : MemberRef}
  {f : ClassInfo → ClassInfo} {l : List (UInt16 × β)}

/-! ## The search for members -/

namespace Program

variable {p p' : Program} {c d : ClassId} {accept : Entity → Bool}

lemma accepts_of_decl {sort : MemberSort} {descriptor : String} {e e' : Entity} (h : e'.decl = e.decl) :
    sort.accepts name descriptor e' = sort.accepts name descriptor e := by
  have hname := Entity.name_eq h
  have hkind : e'.decl.kind = e.decl.kind := congrArg (·.kind) h
  cases hk : e.kind <;> cases hk' : e'.kind <;> simp only [Entity.decl] at hkind <;> cases sort <;>
    simp_all [MemberSort.accepts, Method.decl]

lemma Settled.member?_eq {S : ClassId → Prop} (h : p.Settled c) (hk : p.Keeps S p')
    (hS : ∀ d, p.Finalized d → S d) (sort : MemberSort) (name descriptor : String) :
    p'.member? c sort name descriptor = p.member? c sort name descriptor := by
  have hsame : ∀ depth {c}, p.Settled c → p'.searchMember (sort.accepts name descriptor) depth c =
      p.searchMember (sort.accepts name descriptor) depth c := by
    intro depth
    induction depth with
    | zero => exact fun _ => rfl
    | succ depth ih =>
      intro c h
      exact searchMember_succ_congr (h.decl_eq hk hS) (fun e he => accepts_of_decl (h.member_decl_eq hk hS he))
        fun s hs =>
        ih (h.extends hs)
  obtain ⟨more, hmore⟩ := Nat.le.dest hk.classes
  rw [member?, hsame _ h, ← hmore, add_right_comm]
  exact h.acyclic.searchMember_add more nodup_nil (by simp) (by simp)

end Program

/-! ## What notes say -/

lemma FieldType.array_of_parse {type : FieldType} (hhead : name.toList.head? = some '[')
    (h : FieldType.parse name = .ok type) : ∃ element, type = .array element := by
  have hchars := (ofChars_eq_ok_iff.1 h).2
  rw [hchars] at hhead
  cases type with
  | array element => exact ⟨element, rfl⟩
  | object name => simp [chars] at hhead
  | base k =>
    refine absurd hhead ?_
    cases k <;> decide

namespace World

variable {w w' w'' : World} {c d : ClassId} {e : EntityId} {file : ClassFile} {index : UInt16} {type : TypeRef}
  {source : ClassSource}

def Types (w : World) : FieldType → TypeRef → Prop
  | .base k, type => type = .prim k
  | .object name, type => ∃ c, w.named? name = some c ∧ type = .ofClass c
  | .array element, type => ∃ inner, w.Types element inner ∧ type = .array inner

inductive Knows (w : World) (c : ClassId) (file : ClassFile) (index : UInt16) : TypeRef → Prop
  | noted {d : ClassId} (h : (w.classAt c).classLinks.lookup index = some d) : Knows w c file index (.ofClass d)
  | array {name : String} {element : FieldType} {type : TypeRef} (hname : file.pool.className index = .ok name)
    (hhead : name.toList.head? = some '[') (hparse : FieldType.parse name = .ok element) (h : w.Types element type) :
    Knows w c file index type

def Owns (w : World) : TypeRef → ClassId → Prop
  | .ofClass d, owner => owner = d
  | _, owner => w.named? objectClassName = some owner

def NamesClass (w : World) (file : ClassFile) (index : UInt16) (d : ClassId) : Prop :=
  (w.classAt d).state = .finalized ∧
    ∃ name, file.pool.className index = .ok name ∧ name.toList.head? ≠ some '[' ∧ w.named? name = some d

def NamesMember (w : World) (c : ClassId) (file : ClassFile) (index : UInt16) (e : EntityId) : Prop :=
  ∃ kind ref type owner, file.pool.memberRef index kind = .ok ref ∧ w.Knows c file ref.classIndex type ∧
    w.Owns type owner ∧ (w.classAt owner).state = .finalized ∧
      (w.program.Grounded owner → w.program.member? owner kind.sort ref.name ref.descriptor = some e)

structure Noted (w : World) : Prop where
  classes : ∀ {c file index d}, (w.classAt c).file? = some file → (w.classAt c).classLinks.lookup index = some d →
    w.NamesClass file index d
  members : ∀ {c file index e}, (w.classAt c).file? = some file → (w.classAt c).memberLinks.lookup index = some e →
    w.NamesMember c file index e

lemma noted_empty : ({} : World).Noted where
  classes h := nomatch h
  members h := nomatch h

lemma hasClass_of_classLink (h : (w.classAt c).classLinks.lookup index = some d) : w.HasClass c := by
  by_contra hc
  simp [classAt, Program.classAt_of_not _ c hc] at h

lemma hasClass_of_memberLink (h : (w.classAt c).memberLinks.lookup index = some e) : w.HasClass c := by
  by_contra hc
  simp [classAt, Program.classAt_of_not _ c hc] at h

lemma Types.mono {type : FieldType} (h : w.Types type t) (hl : Loads w w') : w'.Types type t := by
  induction type generalizing t with
  | base k => exact h
  | object name =>
    obtain ⟨c, hc, ht⟩ := h; exact ⟨c, hl.keeps.named name c hc, ht⟩
  | array element ih =>
    obtain ⟨inner, hi, ht⟩ := h; exact ⟨inner, ih hi, ht⟩

lemma Knows.mono (h : w.Knows c file index type) (hl : Loads w w')
    (hkeep : ∀ d, (w.classAt c).classLinks.lookup index = some d → (w'.classAt c).classLinks.lookup index = some d) :
    w'.Knows c file index type := by
  cases h with
  | noted h => exact .noted (hkeep _ h)
  | array hname hhead hparse h => exact .array hname hhead hparse (h.mono hl)

lemma Knows.finalized (h : w.Knows c file index (.ofClass d)) (hn : w.Noted) (hfile : (w.classAt c).file? = some file) :
    w.Finalized d := by
  generalize htype : TypeRef.ofClass d = type at h
  cases h with
  | noted h =>
    cases htype
    exact (hn.classes hfile h).1
  | array hname hhead hparse h =>
    obtain ⟨element, rfl⟩ := FieldType.array_of_parse hhead hparse
    obtain ⟨inner, -, rfl⟩ := h; cases htype

lemma Owns.mono {owner : ClassId} (h : w.Owns type owner) (hl : Loads w w') : w'.Owns type owner := by
  cases type with
  | ofClass d => exact h
  | prim k => exact hl.keeps.named _ _ h
  | array element => exact hl.keeps.named _ _ h

lemma NamesClass.mono (h : w.NamesClass file index d) (hl : Loads w w') : w'.NamesClass file index d := by
  obtain ⟨hstate, name, hname, hhead, hd⟩ := h
  exact ⟨hl.state_eq hstate, name, hname, hhead, hl.keeps.named name d hd⟩

lemma NamesMember.mono (h : w.NamesMember c file index e) (hr : w.Ready) (hl : Loads w w')
    (hkeep : ∀ {index d}, (w.classAt c).classLinks.lookup index = some d →
    (w'.classAt c).classLinks.lookup index = some d) :
    w'.NamesMember c file index e := by
  obtain ⟨kind, ref, type, owner, href, hknows, howns, hstate, hfound⟩ := h
  refine ⟨kind, ref, type, owner, href, hknows.mono hl (fun _ => hkeep), howns.mono hl, hl.state_eq hstate,
    fun hg => ?_⟩
  have hg' := hl.keeps.program.grounded hg
  rw [(hr.fine owner hstate hg').member?_eq hl.keeps.program fun d hd => .inl hd]
  exact hfound hg'

/-- What `info` notes for `c` besides what is noted is right. -/
structure Adds (w : World) (c : ClassId) (info : ClassInfo) : Prop where
  keeps : ∀ {index d}, (w.classAt c).classLinks.lookup index = some d → info.classLinks.lookup index = some d
  classes : ∀ {index d}, info.classLinks.lookup index = some d → (w.classAt c).classLinks.lookup index = some d ∨
    ∃ file, (w.classAt c).file? = some file ∧ w.NamesClass file index d
  members : ∀ {index e}, info.memberLinks.lookup index = some e → (w.classAt c).memberLinks.lookup index = some e ∨
    ∃ file, (w.classAt c).file? = some file ∧ w.NamesMember c file index e

lemma Adds.of_eq {info : ClassInfo} (hclass : info.classLinks = (w.classAt c).classLinks)
    (hmember : info.memberLinks = (w.classAt c).memberLinks) : w.Adds c info :=
  ⟨fun h => by rwa [hclass], fun h => .inl (by rwa [← hclass]), fun h => .inl (by rwa [← hmember])⟩

lemma Noted.add (h : w.Noted) (hr : w.Ready) (hl : Loads w w') (hadd : ∀ c, w.Adds c (w'.classAt c)) : w'.Noted := by
  have hfile : ∀ {c file}, w.HasClass c → (w'.classAt c).file? = some file → (w.classAt c).file? = some file :=
    fun hc hfile => (hl.keeps.program.file hc) ▸ hfile
  constructor
  · intro c file index d hf hd
    rcases (hadd c).classes hd with hd | ⟨file', hf', hd⟩
    · exact (h.classes (hfile (hasClass_of_classLink hd) hf) hd).mono hl
    · obtain rfl : file' = file := some.inj (hf'.symm.trans (hfile (Program.hasClass_of_file hf') hf))
      exact hd.mono hl
  · intro c file index e hf he
    rcases (hadd c).members he with he | ⟨file', hf', he⟩
    · exact (h.members (hfile (hasClass_of_memberLink he) hf) he).mono hr hl (hadd c).keeps
    · obtain rfl : file' = file := some.inj (hf'.symm.trans (hfile (Program.hasClass_of_file hf') hf))
      exact he.mono hr hl (hadd c).keeps

lemma Prepares.classLinks (h : Prepares source w w') (c : ClassId) :
    (w'.classAt c).classLinks = (w.classAt c).classLinks :=
  (congrArg (·.classLinks) (h.idle.progress c) :)

lemma Prepares.noted (hp : Prepares source w w') (hr : w.Ready) (h : w.Noted) : w'.Noted :=
  h.add hr hp.toLoads fun c => .of_eq (hp.classLinks c) (congrArg (·.memberLinks) (hp.idle.progress c) :)

lemma Noted.note (h : w.Noted) (hr : w.Ready) (hf : ∀ info, (f info).decl = info.decl)
    (hadd : w.Adds c (f (w.classAt c))) : (w.modifyClass c f).Noted := by
  refine h.add hr (.note hr hf) fun x => ?_
  rw [classAt_modifyClass]
  split
  · rename_i hx; rwa [hx.1]
  · exact .of_eq rfl rfl

lemma lookup_add {i : UInt16} {a b : β} :
    (l ++ [(index, a)]).lookup i = some b → l.lookup i = some b ∨ i = index ∧ b = a := by
  rw [Image.lookup_append_singleton, or_eq_some_iff]
  refine Or.imp_right fun h => ?_
  split at h
  · rename_i hi; exact ⟨hi, (some.inj h.2).symm⟩
  · cases h.2

lemma Noted.addClass (h : w.Noted) (hr : w.Ready) (hfile : (w.classAt c).file? = some file)
    (hd : w.NamesClass file index d) :
    (w.modifyClass c fun info => { info with classLinks := info.classLinks ++ [(index, d)] }).Noted := by
  refine h.note hr (fun _ => rfl) ⟨fun hx => ?_, fun hx => (lookup_add hx).imp_right ?_, .inl⟩
  · rw [lookup_append, hx, some_or]
  · rintro ⟨rfl, rfl⟩; exact ⟨file, hfile, hd⟩

lemma Noted.addMember (h : w.Noted) (hr : w.Ready) (hfile : (w.classAt c).file? = some file)
    (he : w.NamesMember c file index e) :
    (w.modifyClass c fun info => { info with memberLinks := info.memberLinks ++ [(index, e)] }).Noted := by
  refine h.note hr (fun _ => rfl) ⟨id, .inl, fun hx => (lookup_add hx).imp_right ?_⟩
  rintro ⟨rfl, rfl⟩
  exact ⟨file, hfile, he⟩

end World

/-! ## Loading keeps notes right -/

section Steps

variable {source : ClassSource} {w w' w'' : World} {c owner : ClassId} {file : ClassFile} {index : UInt16}
    {type : TypeRef}
  {e : EntityId} {kind : RefKind} {u : Unit}

lemma named?_of_classNamed (h : classNamed source name w = .ok c w') : w'.named? name = some c := by
  rcases (classNamed_enters source name w).ok h with ⟨hn, rfl⟩ | ⟨hn, he⟩
  · exact hn
  · rw [he.named?_eq, hn, none_or, if_pos rfl]

lemma typeOf_types {type : FieldType} (h : typeOf source type w = .ok t w') (hr : w.Ready) :
    Prepares source w w' ∧ w'.Types type t := by
  induction type generalizing t with
  | base k =>
    cases h; exact ⟨.refl hr.sound hr.fine, rfl⟩
  | object name =>
    obtain ⟨d, w1, hd, h⟩ := bind_ok.1 h
    cases h
    exact ⟨((classNamed_prepares source name hr.sound hr.fine).ok hd).1, d, named?_of_classNamed hd, rfl⟩
  | array element ih =>
    obtain ⟨inner, w1, hi, h⟩ := bind_ok.1 h
    cases h
    obtain ⟨hp, ht⟩ := ih hi; exact ⟨hp, inner, ht, rfl⟩

lemma found_prepares (hfound : classNamed source name w = .ok c w')
    (hfin : finalizeClass source c w' = .ok u w'') (hr : w.Ready) :
    Prepares source w w'' ∧ w''.named? name = some c ∧ w''.Finalized c := by
  have hp := ((classNamed_prepares source name hr.sound hr.fine).ok hfound).1
  have hr' : w'.Ready := hp.ready hr
  obtain ⟨hp', hdone, -⟩ := (finalizeClass_finalizes source w' c hr'.sound hr'.fine (hr'.pending c)).ok hfin
  refine ⟨hp.trans hp', hp'.keeps.named name c (named?_of_classNamed hfound), hdone.resolve_right ?_⟩
  rw [hr'.idle]
  exact not_mem_nil

lemma classRef_notes (h : classRef source c file index w = .ok type w') (hr : w.Ready) (hn : w.Noted)
    (hfile : (w.classAt c).file? = some file) : Loads w w' ∧ w'.Noted ∧ w'.Knows c file index type := by
  obtain ⟨_, w0, hget, h⟩ := bind_ok.1 h
  obtain ⟨-, rfl⟩ := pureStep_ok.1 hget
  replace h := get_bind_ok.1 h
  cases hlink : (w.classAt c).classLinks.lookup index with
  | some d =>
    rw [hlink] at h
    cases h; exact ⟨.refl hr.sound hr.fine, hn, .noted hlink⟩
  | none =>
    rw [hlink] at h
    obtain ⟨name, w1, hread, h⟩ := bind_ok.1 h
    obtain ⟨hname, rfl⟩ := pureStep_ok.1 hread
    split at h
    · rename_i hhead
      obtain ⟨t, w2, hread', h⟩ := bind_ok.1 h
      obtain ⟨hparse, rfl⟩ := pureStep_ok.1 hread'
      obtain ⟨hp, ht⟩ := typeOf_types h hr
      exact ⟨hp.toLoads, hp.noted hr hn, .array hname hhead hparse ht⟩
    · rename_i hhead
      obtain ⟨found, w1, hfound, h⟩ := bind_ok.1 h
      obtain ⟨_, w2, hfin, h⟩ := bind_ok.1 h
      obtain ⟨_, w3, hnote, h⟩ := bind_ok.1 h
      obtain rfl := modifyClass_ok.1 hnote
      cases h
      obtain ⟨hp, hnamed, hstate⟩ := found_prepares hfound hfin hr
      have hr2 : w2.Ready := hp.ready hr
      have hhas := Program.hasClass_of_file hfile
      have hfile2 : (w2.classAt c).file? = some file := hp.keeps.program.file_eq_some hfile
      have hnone : (w2.classAt c).classLinks.lookup index = none := by rwa [hp.classLinks]
      refine ⟨hp.toLoads.trans (.note hr2 fun _ => rfl), ?_, .noted ?_⟩
      · exact (hp.noted hr hn).addClass hr2 hfile2 ⟨hstate, name, hname, hhead, hnamed⟩
      · rw [classAt_modifyClass, if_pos ⟨rfl, hp.keeps.program.hasClass hhas⟩, Image.lookup_append_singleton, hnone,
          none_or, if_pos rfl]

lemma memberOwner_owns (h : memberOwner source type w = .ok owner w') (hr : w.Ready)
    (htype : ∀ d, type = .ofClass d → w.Finalized d) :
    Prepares source w w' ∧ w'.Owns type owner ∧ w'.Finalized owner := by
  cases type with
  | ofClass d =>
    obtain ⟨rfl, rfl⟩ := pure_ok.1 h; exact ⟨.refl hr.sound hr.fine, rfl, htype _ rfl⟩
  | prim k =>
    obtain ⟨found, w1, hfound, h⟩ := bind_ok.1 h
    obtain ⟨_, w2, hfin, h⟩ := bind_ok.1 h
    cases h; exact found_prepares hfound hfin hr
  | array element =>
    obtain ⟨found, w1, hfound, h⟩ := bind_ok.1 h
    obtain ⟨_, w2, hfin, h⟩ := bind_ok.1 h
    cases h; exact found_prepares hfound hfin hr

lemma memberEntity_notes (h : memberEntity source c file index kind w = .ok e w') (hr : w.Ready) (hn : w.Noted)
    (hfile : (w.classAt c).file? = some file) : Loads w w' ∧ w'.Noted := by
  obtain ⟨_, w0, hget, h⟩ := bind_ok.1 h
  obtain ⟨-, rfl⟩ := pureStep_ok.1 hget
  replace h := get_bind_ok.1 h
  cases hlink : (w.classAt c).memberLinks.lookup index with
  | some found =>
    rw [hlink] at h
    obtain ⟨rfl, rfl⟩ := pure_ok.1 h; exact ⟨.refl hr.sound hr.fine, hn⟩
  | none =>
    rw [hlink] at h
    obtain ⟨ref, w1, hread, h⟩ := bind_ok.1 h
    obtain ⟨href, rfl⟩ := pureStep_ok.1 hread
    obtain ⟨type, w1, htype, h⟩ := bind_ok.1 h
    obtain ⟨owner, w2, howner, h⟩ := bind_ok.1 h
    obtain ⟨hl, hn1, hknows⟩ := classRef_notes htype hr hn hfile
    have hr1 : w1.Ready := hl.ready hr
    have hfile1 : (w1.classAt c).file? = some file := hl.keeps.program.file_eq_some hfile
    obtain ⟨hp, howns, hstate⟩ := memberOwner_owns howner hr1 fun d hd => by
      subst hd; exact hknows.finalized hn1 hfile1
    have hr2 : w2.Ready := hp.ready hr1
    have hfile2 : (w2.classAt c).file? = some file := hp.keeps.program.file_eq_some hfile1
    replace h := get_bind_ok.1 h
    cases hfound : w2.program.member? owner kind.sort ref.name ref.descriptor with
    | none => rw [hfound] at h; cases h
    | some found =>
      rw [hfound] at h
      obtain ⟨_, w3, hnote, h⟩ := bind_ok.1 h
      cases hnote
      cases h
      refine ⟨(hl.trans hp.toLoads).trans (.note hr2 fun _ => rfl), (hp.noted hr1 hn1).addMember hr2 hfile2 ?_⟩
      have hknows2 := hknows.mono hp.toLoads fun d hd => by rwa [hp.classLinks]
      exact ⟨kind, ref, type, owner, href, hknows2, howns, hstate, fun _ => hfound⟩

lemma classFileOf_bind {f : ClassFile → Load α} {a : α} (h : (classFileOf c >>= f) w = .ok a w') :
    ∃ file, (w.classAt c).file? = some file ∧ f file w = .ok a w' := by
  obtain ⟨file, w1, hread, hf⟩ := bind_ok.1 h
  obtain ⟨rfl, hfile⟩ := (classFileOf_ends c w).ok hread
  exact ⟨file, hfile, hf⟩

/-- Notes are right while the methods of `c` are compiled. -/
def World.noting (c : ClassId) (file : ClassFile) : Contract World :=
  .ofDoes (fun w => w.Ready ∧ w.Noted ∧ (w.classAt c).file? = some file) (fun _ _ => True) (fun _ => trivial)
    fun _ _ => trivial

lemma noting_of_ok {x : Load α}
    (hx : ∀ {w w' a}, x w = .ok a w' → w.Ready → w.Noted → (w.classAt c).file? = some file → Loads w w' ∧ w'.Noted) :
    (noting c file).Honours x := by
  refine Contract.honours_ofDoes fun w a w' ⟨hr, hn, hfile⟩ h => ⟨?_, trivial⟩
  obtain ⟨hl, hn'⟩ := hx h hr hn hfile
  exact ⟨hl.ready hr, hn', hl.keeps.program.file_eq_some hfile⟩

lemma noting_onImage {f : Image → α × Image} (hf : ∀ im : Image, im.Supplies (fun _ => False) (f im).2) :
    (noting c file).Honours (onImage f) := by
  refine noting_of_ok fun {w w' a} h hr hn _ => ?_
  cases h
  have hl : Loads w { w with image := (f w.image).2 } := .supplies hr.sound hr.fine (hf w.image)
  have hclass : ∀ d, ({ w with image := (f w.image).2 } : World).classAt d = w.classAt d := (hf w.image).classAt
  exact ⟨hl, hn.add hr hl fun d => .of_eq (by rw [hclass]) (by rw [hclass])⟩

lemma noting_rules : WorldRules source c file (noting c file) where
  image := noting_onImage
  classRef _ := noting_of_ok fun h hr hn hfile => (classRef_notes h hr hn hfile).imp_right And.left
  memberEntity _ _ := noting_of_ok memberEntity_notes

lemma constructMethods_notes {methods : List (Member × EntityId)}
    (h : constructMethods source c file methods w = .ok u w') (hr : w.Ready) (hn : w.Noted)
    (hfile : (w.classAt c).file? = some file) : w'.Ready ∧ w'.Noted := by
  induction methods generalizing w with
  | nil =>
    cases h; exact ⟨hr, hn⟩
  | cons body rest ih =>
    obtain ⟨member, e⟩ := body
    unfold constructMethods at h
    split at h
    · obtain ⟨g, w1, hgraph, h⟩ := bind_ok.1 h
      obtain ⟨_, w2, hattach, h⟩ := bind_ok.1 h
      cases hattach
      obtain ⟨⟨hr1, hn1, hfile1⟩, -⟩ := (methodGraph_honours noting_rules member e w ⟨hr, hn, hfile⟩).ok hgraph
      have hl := Loads.attach hr1 e ((methodGraph_ends file member e hr).ok hgraph).2.2
      exact ih h (hl.ready hr1) (hn1.add hr1 hl fun _ => .of_eq rfl rfl) hfile1
    · exact ih h hr hn hfile

lemma call_notes {call : Call} (h : call.run source w = .ok () w') (hr : w.Ready) (hn : w.Noted) : w'.Noted := by
  cases call with
  | lookup name =>
    obtain ⟨d, w1, hd, h⟩ := bind_ok.1 h
    cases h
    exact ((classNamed_prepares source name hr.sound hr.fine).ok hd).1.noted hr hn
  | finalize c => exact ((finalizeClass_finalizes source w c hr.sound hr.fine (hr.pending c)).ok h).1.noted hr hn
  | classRef c index =>
    obtain ⟨file, hfile, h⟩ := classFileOf_bind h
    obtain ⟨type, w1, htype, h⟩ := bind_ok.1 h
    cases h; exact (classRef_notes htype hr hn hfile).2.1
  | member c index kind =>
    obtain ⟨file, hfile, h⟩ := classFileOf_bind h
    obtain ⟨e, w1, he, h⟩ := bind_ok.1 h
    cases h; exact (memberEntity_notes he hr hn hfile).2
  | construct c =>
    have h := get_bind_ok.1 h
    split at h
    · cases h; exact hn
    · obtain ⟨file, hfile, h⟩ := classFileOf_bind h
      obtain ⟨_, w1, hmethods, h⟩ := bind_ok.1 h
      cases h
      obtain ⟨hr1, hn1⟩ := constructMethods_notes hmethods hr hn hfile
      exact hn1.note hr1 (fun _ => rfl) (.of_eq rfl rfl)

end Steps

/-! ## Forgetting a note -/

namespace ConstantPool

variable {p : ConstantPool} {index : UInt16}

lemma get_of_className (h : p.className index = .ok name) : ∃ text, p.get index = .ok (.classRef text) := by
  obtain ⟨k, hget, h⟩ := except_bind_ok.1 h
  split at h
  · exact ⟨_, hget⟩
  · cases h

lemma get_of_memberRef {kind : RefKind} (h : p.memberRef index kind = .ok ref) :
    ∃ nat, p.get index = .ok (.member kind ref.classIndex nat) ∧ p.className ref.classIndex = .ok ref.className := by
  obtain ⟨k, hget, h⟩ := except_bind_ok.1 h
  split at h
  · split at h
    · cases h
    · rename_i hk
      obtain ⟨⟨name, descriptor⟩, -, h⟩ := except_bind_ok.1 h
      obtain ⟨className, hclass, h⟩ := except_bind_ok.1 h
      cases h
      rw [not_not] at hk; exact ⟨_, hk ▸ hget, hclass⟩
  · cases h

end ConstantPool

lemma Program.modifyClass_eq_self {p : Program} {c : ClassId} (h : f (p.classAt c) = p.classAt c) :
    p.modifyClass c f = p := by
  have hclasses : p.classes.setIfInBounds c.index (p.classAt c) = p.classes := by
    refine Array.ext_getElem? fun i => ?_
    by_cases hi : c.index < p.classes.size
    · rw [Array.getElem?_setIfInBounds]
      split
      · simp_all [classAt]
      · rfl
    · rw [Array.setIfInBounds_eq_of_size_le (by omega)]
  rw [modifyClass, h, hclasses]

/-- What a computation answers, whatever it does to the state. -/
def Steps.answer {ε σ α : Type} : EStateM.Result ε σ α → Except ε α
  | .ok a _ => .ok a
  | .error e _ => .error e

def ClassInfo.forget (info : ClassInfo) (index : UInt16) : ClassInfo :=
  { info with
    classLinks := info.classLinks.filter (·.1 ≠ index)
    memberLinks := info.memberLinks.filter (·.1 ≠ index) }

namespace World

variable {source : ClassSource} {w : World} {c owner : ClassId} {file : ClassFile} {index i : UInt16} {type : TypeRef}
  {kind : RefKind} {fault : Error} {e : EntityId}

def forget (w : World) (c : ClassId) (index : UInt16) : World := w.modifyClass c (·.forget index)

lemma lookup_filter_ne (l : List (UInt16 × β)) (index i : UInt16) :
    (l.filter (·.1 ≠ index)).lookup i = if i = index then none else l.lookup i := by
  induction l with
  | nil => simp
  | cons a l ih =>
    split
    · grind
    · grind

lemma filter_ne_eq_self (h : l.lookup index = none) : l.filter (·.1 ≠ index) = l := by
  refine filter_eq_self.2 fun a ha => ?_
  grind

lemma forget_eq_self (hclass : (w.classAt c).classLinks.lookup index = none)
    (hmember : (w.classAt c).memberLinks.lookup index = none) : w.forget c index = w := by
  have hsame : (w.classAt c).forget index = w.classAt c := by
    rw [ClassInfo.forget, filter_ne_eq_self hclass, filter_ne_eq_self hmember]
  have hprogram : w.program.modifyClass c (·.forget index) = w.program := Program.modifyClass_eq_self hsame
  show { w with image := { w.image with program := w.program.modifyClass c (·.forget index) } } = w
  rw [hprogram]
  rfl

lemma loads_forget (hr : w.Ready) (c : ClassId) (index : UInt16) : Loads w (w.forget c index) := .note hr fun _ => rfl

lemma classAt_forget (w : World) (c : ClassId) (index : UInt16) :
    (w.forget c index).classAt c = (w.classAt c).forget index := by
  rw [forget, classAt_modifyClass]
  split
  · rfl
  · rename_i hc
    have : w.classAt c = default := w.program.classAt_of_not c fun h => hc ⟨rfl, h⟩
    rw [this]; rfl

lemma classLinks_forget (w : World) (c : ClassId) (index i : UInt16) :
    ((w.forget c index).classAt c).classLinks.lookup i = if i = index then none else (w.classAt c).classLinks.lookup
    i := by
  rw [classAt_forget]
  exact lookup_filter_ne ..

lemma memberLinks_forget (w : World) (c : ClassId) (index : UInt16) :
    ((w.forget c index).classAt c).memberLinks.lookup index = none := by
  rw [classAt_forget, ClassInfo.forget, lookup_filter_ne, if_pos rfl]

/-! ## Answers -/

lemma typeOf_of_types {type : FieldType} (h : w.Types type t) : typeOf source type w = .ok t w := by
  induction type generalizing t with
  | base k => subst h; rfl
  | object name =>
    obtain ⟨c, hc, rfl⟩ := h; exact bind_of_ok (classNamed_of_named hc)
  | array element ih =>
    obtain ⟨inner, hi, rfl⟩ := h; exact bind_of_ok (ih hi)

lemma classRef_of_knows (h : w.Knows c file index type) (hname : file.pool.className index = .ok name)
    (hlink : name.toList.head? = some '[' → (w.classAt c).classLinks.lookup index = none) :
    classRef source c file index w = .ok type w := by
  obtain ⟨text, hget⟩ := get_of_className hname
  refine (pureStep_bind hget _).trans (get_bind_ok.2 ?_)
  cases h with
  | noted h => rw [h]; rfl
  | array hname' hhead hparse h =>
    cases hname.symm.trans hname'
    rw [hlink hhead]
    refine (pureStep_bind hname _).trans ?_
    rw [if_pos hhead]; exact (pureStep_bind hparse _).trans (typeOf_of_types h)

lemma found_of_named {f : ClassId → Load α} (hnamed : w.named? name = some c)
    (hstate : w.Finalized c) : (do
      let found ← classNamed source name
      finalizeClass source found
      f found) w = f c w :=
  (bind_of_ok (classNamed_of_named hnamed)).trans (bind_of_ok (finalizeClass_of_protected (.inl hstate)))

lemma memberOwner_of_owns (h : w.Owns type owner) (hstate : w.Finalized owner) :
    memberOwner source type w = .ok owner w := by
  cases type with
  | ofClass d =>
    cases h
    rfl
  | prim k => exact found_of_named h hstate
  | array element => exact found_of_named h hstate

lemma pureStep_bind_error {x : Except Error α} (h : x = .error fault) (f : α → Load β) :
    (pureStep x >>= f) w = .error fault w := by
  rw [h]
  rfl

lemma read_of_fault {x : Except Error Constant} {y : Except Error α} {f : World → Load β}
    (hx : ∀ e, x = .error e → y = .error e) (hy : y = .error fault) (hf : f w w = .error fault w) :
    (pureStep x >>= fun _ => get >>= f) w = .error fault w := by
  cases hget : x with
  | error e =>
    cases hy.symm.trans (hx e hget)
    rfl
  | ok k => exact hf

lemma classRef_of_fault (hlink : (w.classAt c).classLinks.lookup index = none)
    (h : file.pool.className index = .error fault) :
    classRef source c file index w = .error fault w := by
  refine read_of_fault (fun e hget => by rw [className, hget]; rfl) h ?_
  rw [hlink]
  exact pureStep_bind_error h _

lemma memberEntity_of_fault (hlink : (w.classAt c).memberLinks.lookup index = none)
    (h : file.pool.memberRef index kind = .error fault) : memberEntity source c file index kind w = .error fault w := by
  refine read_of_fault (fun e hget => by rw [memberRef, hget]; rfl) h ?_
  rw [hlink]
  exact pureStep_bind_error h _

lemma memberEntity_of_noted {k : Constant} (hget : file.pool.get index = .ok k)
    (h : (w.classAt c).memberLinks.lookup index = some e) : memberEntity source c file index kind w = .ok e w := by
  refine (pureStep_bind hget _).trans (get_bind_ok.2 ?_)
  rw [h]
  rfl

lemma Noted.classRef_forget (h : w.Noted) (hr : w.Ready) (hfile : (w.classAt c).file? = some file) (index : UInt16) :
    answer (classRef source c file index (w.forget c index)) = answer (classRef source c file index w) := by
  have hnone : ((w.forget c index).classAt c).classLinks.lookup index = none := by rw [classLinks_forget, if_pos rfl]
  cases hlink : (w.classAt c).classLinks.lookup index with
  | some d =>
    have hname := h.classes hfile hlink
    obtain ⟨hstate, name, hclass, hhead, hnamed⟩ := hname.mono (loads_forget hr c index)
    obtain ⟨text, hget⟩ := get_of_className hclass
    have hfound : answer (classRef source c file index (w.forget c index)) = .ok (.ofClass d) := by
      unfold classRef
      rw [pureStep_bind hget, Steps.get_bind, hnone]
      dsimp only
      rw [pureStep_bind hclass, if_neg hhead, found_of_named hnamed hstate]; rfl
    rw [hfound, classRef_of_knows (.noted hlink) hclass fun hhead' => absurd hhead' hhead]; rfl
  | none =>
    cases hmember : (w.classAt c).memberLinks.lookup index with
    | some e =>
      obtain ⟨kind, ref, type, owner, href, -⟩ := h.members hfile hmember
      obtain ⟨nat, hget, -⟩ := get_of_memberRef href
      have hfault : file.pool.className index = .error (.unexpectedConstant index .classReference) := by
        rw [className, hget]; rfl
      rw [classRef_of_fault hnone hfault, classRef_of_fault hlink hfault]; rfl
    | none => rw [forget_eq_self hlink hmember]

/-- What is noted for a member constant is found again without the note. -/
lemma NamesMember.forget (he : w.NamesMember c file index e) (h : w.Noted) (hr : w.Ready)
    (hfile : (w.classAt c).file? = some file) (hground : ∀ d, w.program.Grounded d)
    (href : file.pool.memberRef index kind = .ok ref) :
    answer (memberEntity source c file index kind (w.forget c index)) = .ok e := by
  obtain ⟨kind', ref', type, owner, href', hknows, howns, hstate, hfound⟩ := he
  have hl := loads_forget hr c index
  obtain ⟨nat, hget, hclass⟩ := get_of_memberRef href
  obtain ⟨nat', hget', -⟩ := get_of_memberRef href'
  have hconstant := Except.ok.inj (hget.symm.trans hget')
  obtain rfl : kind = kind' := (Constant.member.inj hconstant).1
  obtain rfl : ref = ref' := Except.ok.inj (href.symm.trans href')
  -- The class of the member is named by another constant, whose note stays.
  have hlinks : ((w.forget c index).classAt c).classLinks.lookup ref.classIndex =
      (w.classAt c).classLinks.lookup ref.classIndex := by
    rw [classLinks_forget, if_neg]
    intro heq
    obtain ⟨text, hget''⟩ := get_of_className hclass; simp [heq, hget] at hget''
  have hnone : ref.className.toList.head? = some '[' →
      ((w.forget c index).classAt c).classLinks.lookup ref.classIndex = none := by
    intro hhead
    rw [hlinks, eq_none_iff_forall_ne_some]
    intro d hd
    obtain ⟨-, name, hname, hhead', -⟩ := h.classes hfile hd
    cases hclass.symm.trans hname
    exact hhead' hhead
  have hknows' : (w.forget c index).Knows c file ref.classIndex type := hknows.mono hl fun d hd => hlinks ▸ hd
  have hfound' : (w.forget c index).program.member? owner kind.sort ref.name ref.descriptor = some e := by
    rw [(hr.fine owner hstate (hground owner)).member?_eq hl.keeps.program fun d hd => .inl hd]
    exact hfound (hground owner)
  unfold memberEntity
  rw [pureStep_bind hget, Steps.get_bind, memberLinks_forget]
  dsimp only
  rw [pureStep_bind href, bind_of_ok (classRef_of_knows hknows' hclass hnone),
    bind_of_ok (memberOwner_of_owns (howns.mono hl) (hl.state_eq hstate)), Steps.get_bind, hfound']
  rfl

lemma Noted.memberEntity_forget (h : w.Noted) (hr : w.Ready) (hfile : (w.classAt c).file? = some file)
    (hground : ∀ d, w.program.Grounded d) (href : file.pool.memberRef index kind = .ok ref) :
    answer (memberEntity source c file index kind (w.forget c index)) = answer
    (memberEntity source c file index kind w) := by
  obtain ⟨nat, hget, -⟩ := get_of_memberRef href
  cases hlink : (w.classAt c).memberLinks.lookup index with
  | some e =>
    rw [(h.members hfile hlink).forget h hr hfile hground href, memberEntity_of_noted hget hlink]
    rfl
  | none =>
    have hclass : (w.classAt c).classLinks.lookup index = none := by
      rw [eq_none_iff_forall_ne_some]
      intro d hd
      obtain ⟨-, name, hname, -⟩ := h.classes hfile hd
      obtain ⟨text, hget'⟩ := get_of_className hname; cases hget.symm.trans hget'
    rw [forget_eq_self hclass hlink]

end World

lemma Session.noted {source : ClassSource} {calls : List Call} (h : (run source calls).failures = []) :
    (run source calls).world.Noted :=
  (induct noted_empty (fun _ _ _ hr hn hrun => call_notes hrun hr hn) calls h).2

/-- In a session in which no call fails, constants are answered as if nothing were noted for them. Only where a member
of another sort is asked for than the constant names, the note keeps the fault from being seen. -/
theorem answer_forget (source : ClassSource) (calls : List Call)
    (hok : (Session.run source calls).failures = []) {w : World}
    (hw : (Session.run source calls).world = w) {c : ClassId} {file : ClassFile}
    (hfile : (w.classAt c).file? = some file)
    (index : UInt16) (kind : RefKind) :
    answer (classRef source c file index (w.forget c index)) = answer (classRef source c file index w) ∧
    ((∀ d, w.program.Grounded d) → ∀ ref, file.pool.memberRef index kind = .ok ref →
      answer (memberEntity source c file index kind (w.forget c index)) = answer
      (memberEntity source c file index kind w)) ∧
    ∀ fault, file.pool.memberRef index kind = .error fault →
      answer (memberEntity source c file index kind (w.forget c index)) = .error fault ∧
      answer (memberEntity source c file index kind w) = ((w.classAt c).memberLinks.lookup index).elim
      (.error fault) .ok := by
  subst hw
  have hr := ready hok
  have hn := noted hok
  refine ⟨hn.classRef_forget hr hfile index, fun hground ref href => hn.memberEntity_forget hr hfile hground href,
    fun fault hfault => ?_⟩
  rw [memberEntity_of_fault (memberLinks_forget ..) hfault]
  refine ⟨rfl, ?_⟩
  cases hlink : ((run source calls).world.classAt c).memberLinks.lookup index with
  | some e =>
    obtain ⟨kind', ref, type, owner, href, -⟩ := hn.members hfile hlink
    obtain ⟨nat, hget, -⟩ := get_of_memberRef href
    rw [memberEntity_of_noted hget hlink]
    rfl
  | none =>
    rw [memberEntity_of_fault hlink hfault]
    rfl

def selfReferring : ClassSource :=
  .ofDrafts [{
    name := "T", methods := [{ flags := 0x109, name := "m" }], constants := [.member .method 4 2, .nameAndType 7 8] }]

def resolving : Session := .run selfReferring [.lookup "T", .finalize ⟨0⟩, .member ⟨0⟩ 1 .method]

def selfReferringFile : ClassFile := (resolving.world.classAt ⟨0⟩).file?.get (by decide +kernel)

theorem answer_forget_resolved :
    (resolving.world.classAt ⟨0⟩).memberLinks.lookup 1 = some ⟨7⟩ ∧
    answer (memberEntity selfReferring ⟨0⟩ selfReferringFile 1 .method (resolving.world.forget ⟨0⟩ 1)) =
      answer (memberEntity selfReferring ⟨0⟩ selfReferringFile 1 .method resolving.world) := by
  have hok : resolving.failures = [] := isEmpty_iff.1 (by decide +kernel)
  have hground : ∀ d, resolving.world.program.Grounded d :=
    Program.grounded_of_ranked (show Program.ranked _ [1, 0] = true by decide +kernel)
  have hfile : (resolving.world.classAt ⟨0⟩).file? = some selfReferringFile := (some_get _).symm
  have href : (selfReferringFile.pool.memberRef 1 .method).toOption.isSome = true := by decide +kernel
  refine ⟨by decide +kernel, ?_⟩
  cases h : selfReferringFile.pool.memberRef 1 .method with
  | ok ref => exact (answer_forget selfReferring _ hok rfl hfile 1 .method).2.1 hground ref h
  | error => simp [h, Except.toOption] at href

/-- Asked for an interface method, the constant is a fault, but the note answers. -/
theorem note_hides_fault :
    answer (memberEntity selfReferring ⟨0⟩ selfReferringFile 1 .interfaceMethod resolving.world) = .ok ⟨7⟩ ∧
    answer (memberEntity selfReferring ⟨0⟩ selfReferringFile 1 .interfaceMethod (resolving.world.forget ⟨0⟩ 1)) =
      .error (.unexpectedConstant 1 .interfaceMethodReference) := by
  have hfault : selfReferringFile.pool.memberRef 1 .interfaceMethod =
    .error (.unexpectedConstant 1 .interfaceMethodReference) := by
    decide +kernel
  have hget : selfReferringFile.pool.get 1 = .ok (.member .method 4 2) := by decide +kernel
  have hlink : (resolving.world.classAt ⟨0⟩).memberLinks.lookup 1 = some ⟨7⟩ := by decide +kernel
  rw [memberEntity_of_noted hget hlink, memberEntity_of_fault (memberLinks_forget ..) hfault]
  exact ⟨rfl, rfl⟩

end JvmGraph
