import JvmGraph.Proofs.Body.Calm
import JvmGraph.Proofs.Lowering.Insertion

/-!
# Where the elements of an array lie
The size of a new array and the address of an element are computed by nodes that are made in different places, in
32-bit arithmetic. The elements lie in the memory that was asked for, behind the header and apart from each other,
exactly if header and elements together take less than 4 GiB; beyond that the size wraps.
-/

namespace JvmGraph

open Steps JvmGraph.Graph JvmGraph.Frame UInt32

/-! ## Arithmetic of a graph -/

def Mode.isWord (m : Mode) : Bool := m = .int || m = .unsigned || m = .reference

lemma word_ofInt (n : Nat) : (UInt32.ofInt n).toUInt64.toUInt32 = UInt32.ofNat n := by
  refine UInt32.toNat_inj.1 ?_
  simp only [UInt32.toUInt32_toUInt64, UInt32.ofInt, UInt32.toNat_ofNat']
  omega

variable {inputs : List NodeId}

namespace Graph

variable {g : Graph} {n a b : NodeId} {value : NodeId → UInt32} {mode : Mode} {block : BlockId}

/-- What a node computes, for the operations that array sizes and addresses are made of. -/
def computed? (g : Graph) (value : NodeId → UInt32) (n : NodeId) : Option UInt32 :=
  match g.node n with
  | ⟨.const bits, _, _, _⟩ => some bits.toUInt32
  | ⟨.add, _, _, [a, b]⟩ => some (value a + value b)
  | ⟨.mul, _, _, [a, b]⟩ => some (value a * value b)
  | ⟨.conv, _, _, [a]⟩ => if (g.node a).mode.isWord then some (value a) else none
  | _ => none

/-- These are values of the nodes at some time: what a node of a 32-bit mode computes is its value. -/
def Computes (g : Graph) (value : NodeId → UInt32) : Prop :=
  ∀ n, (g.node n).mode.isWord = true → ∀ x ∈ g.computed? value n, value n = x

namespace Computes

variable (C : g.Computes value)

include C

lemma const {bits : UInt64} (h : g.node n = ⟨.const bits, mode, block, inputs⟩)
    (hm : mode.isWord = true := by rfl) : value n = bits.toUInt32 :=
  C n (by rwa [h]) _ (by simp [computed?, h])

lemma add (h : g.node n = ⟨.add, mode, block, [a, b]⟩) (hm : mode.isWord = true := by rfl) :
    value n = value a + value b :=
  C n (by rwa [h]) _ (by simp [computed?, h])

lemma mul (h : g.node n = ⟨.mul, mode, block, [a, b]⟩) (hm : mode.isWord = true := by rfl) :
    value n = value a * value b :=
  C n (by rwa [h]) _ (by simp [computed?, h])

lemma conv (h : g.node n = ⟨.conv, mode, block, [a]⟩) (ha : (g.node a).mode.isWord = true)
    (hm : mode.isWord = true := by rfl) : value n = value a :=
  C n (by rwa [h]) _ (by simp [computed?, h, ha])

end Computes

/-- A node was added that has this form, and nothing else happened. -/
structure Gains (g : Graph) (n : NodeId) (node : Node) (g' : Graph) : Prop extends g.Extends g' where
  node_eq : g'.node n = node
  new : g.nodes.size ≤ n.index

lemma gains_add (g : Graph) (b : BlockId) (op : Op) (mode : Mode) (inputs : List NodeId) :
    g.Gains (g.add b op mode inputs).1 ⟨op, mode, b, inputs⟩ (g.add b op mode inputs).2 :=
  ⟨.add g b op mode inputs, by rw [node_add]; exact if_pos rfl, le_rfl⟩

lemma Gains.later {g' g'' : Graph} {node : Node} (G : g.Gains n node g') (E : g'.Extends g'')
    (ho : node.op ≠ .bad := by simp) : g''.node n = node :=
  (E.keep_of_op (congrArg Node.op G.node_eq) ho).trans G.node_eq

end Graph

/-! ## Access to an element -/

namespace TypeRef

/-- The kind of value that instructions load and store in arrays of this type: those for `byte` are used for `boolean`
too. -/
def accessKind : TypeRef → Kind
  | prim .boolean => .byte
  | prim k => k
  | _ => .object

lemma size_accessKind (t : TypeRef) : t.accessKind.mode.size = t.size := by
  cases t with
  | prim k => cases k <;> rfl
  | ofClass c => rfl
  | array t => rfl

lemma size_cases (t : TypeRef) : t.size = 0 ∨ t.size = 1 ∨ t.size = 2 ∨ t.size = 4 ∨ t.size = 8 := by
  unfold size
  cases t.mode <;> simp [Mode.size]

/-- The element with index `i` of an array is accessed so many bytes behind the address of the array. -/
def Accesses (element : TypeRef) (i distance : Nat) : Prop :=
  ∃ (f f' : Frame) (array index place : NodeId) (value : NodeId → UInt32),
    Frame.elementAddress array index element.accessKind.mode f = .ok place f' ∧ f'.graph.Computes value ∧
      (value index).toNat = i ∧ (value place - value array).toNat = distance

end TypeRef

variable {op : Op}

namespace Frame

variable {f f' : Frame} {n : NodeId} {mode : Mode} {value : NodeId → UInt32}

lemma addNode_gains (h : addNode op mode inputs f = .ok n f') :
    f.graph.Gains n ⟨op, mode, f.builder.current, inputs⟩ f'.graph := by
  cases h
  exact f.graph.gains_add _ _ _ _

lemma constInt_gains {x : Int} (h : constInt x f = .ok n f') :
    f.graph.Gains n ⟨.const (ofInt x).toUInt64, .int, startBlock, []⟩ f'.graph := by
  unfold constInt onGraph at h
  obtain ⟨s, hs, rfl⟩ := build_ok.1 h
  cases hs
  exact f.graph.gains_add _ _ _ _

lemma elementAddress_computes {array index place : NodeId}
    (h : elementAddress array index mode f = .ok place f') (C : f'.graph.Computes value) :
    value place = value array + (value index * ofNat mode.size + 8) := by
  obtain ⟨size, f1, h, h1⟩ := bind_ok.1 h
  have G := constInt_gains h
  obtain ⟨offset, f2, h, h1⟩ := bind_ok.1 h1
  have G1 := addNode_gains h
  obtain ⟨header, f3, h, h1⟩ := bind_ok.1 h1
  have G2 := constInt_gains h
  obtain ⟨behind, f4, h, h1⟩ := bind_ok.1 h1
  have G3 := addNode_gains h
  have G4 := addNode_gains h1
  have E3 := G3.toExtends.trans G4.toExtends
  have E2 := G2.toExtends.trans E3
  rw [C.add G4.node_eq, C.add (G3.later G4.toExtends), C.const (G2.later E3), C.mul (G1.later E2),
    C.const (G.later (G1.toExtends.trans E2))]
  rw [word_ofInt]
  rfl

lemma convert_computes {x : NodeId} (h : convert x .unsigned f = .ok n f') (hx : f.modeOf x = .int)
    (C : f'.graph.Computes value) : value n = value x := by
  have h := get_bind_ok.1 h
  rw [if_neg (by simp [hx])] at h
  have G := addNode_gains h
  have hlt : f.graph.Has x := by
    by_contra hle
    simp [modeOf, node_of_le (Nat.le_of_not_lt hle)] at hx
  exact C.conv G.node_eq (by rw [G.keep x hlt, show (f.graph.node x).mode = .int from hx]; rfl)

end Frame

/-! ## The size of a new array -/

namespace Lower

variable {s s' : Lowering} {n m x count : NodeId} {element : TypeRef} {value : NodeId → UInt32} {b : BlockId}
    {i : Inserted}
  {mode : Mode} {args : List NodeId}

/-- One node was added to the graph. -/
structure Gains (s : Lowering) (x : NodeId) (node : Node) (s' : Lowering) :
    Prop extends s.graph.Gains x node s'.graph where
  image : s'.image = s.image
  uses : s'.uses = s.uses

lemma onGraph_gains {f : Graph → NodeId × Graph} {block : BlockId}
    (h : onGraph f s = .ok x s') (hf : f s.graph = s.graph.add block op mode inputs) :
    Gains s x ⟨op, mode, block, inputs⟩ s' := by
  cases h
  rw [hf]
  exact ⟨s.graph.gains_add block op mode inputs, rfl, rfl⟩

/-- The node calls a function with these arguments. -/
def Calls (g : Graph) (node m : NodeId) (e : EntityId) (args : List NodeId) : Prop :=
  ∃ block callee, g.node node = ⟨.call, .tuple, block, m :: callee :: args⟩ ∧ (g.node callee).op = .address e

lemma Calls.later {g g' : Graph} {e : EntityId} (h : Calls g x m e args) (E : g.Extends g') : Calls g' x m e args := by
  obtain ⟨block, callee, hx, hc⟩ := h
  exact ⟨block, callee, (E.keep_of_op (congrArg Node.op hx)).trans hx, by rw [E.keep_of_op hc, hc]⟩

lemma insert_gains (h : insert n op inputs mode s = .ok i s') (ho : op ≠ .bad := by simp) :
    Gains s i.node ⟨op, .tuple, (s.graph.node n).block, inputs⟩ s' ∧
      ∃ b, s.graph.Gains i.result ⟨.proj Projection.result, mode, b, [i.node]⟩ s'.graph := by
  obtain ⟨node, s1, h1, h⟩ := bind_ok.1 h
  have G := onGraph_gains h1 rfl
  obtain ⟨memory, s2, h2, h⟩ := bind_ok.1 h
  have G1 := onGraph_gains h2 rfl
  obtain ⟨result, s3, h3, h⟩ := bind_ok.1 h
  have G2 := onGraph_gains h3 rfl
  cases h
  have E := G1.toExtends.trans G2.toExtends
  have E' := G.toExtends.trans G1.toExtends
  exact ⟨⟨⟨G.toExtends.trans E, G.later E ho, G.new⟩, G2.image.trans (G1.image.trans G.image),
    G2.uses.trans (G1.uses.trans G.uses)⟩, _, E'.trans G2.toExtends, G2.node_eq, E'.size_le.trans G2.new⟩

lemma call_calls {f : RuntimeFunction} (h : call n m f args s = .ok i s') :
    Calls s'.graph i.node m (s.image.function f).1 args ∧ s.graph.Extends s'.graph := by
  obtain ⟨callee, s1, h, h1⟩ := bind_ok.1 h
  obtain ⟨e, s0, h0, h⟩ := bind_ok.1 h
  cases h0
  have G := (onGraph_gains h rfl).toGains
  obtain ⟨G1, -⟩ := insert_gains h1
  exact ⟨⟨_, callee, G1.node_eq, congrArg Node.op (G.later G1.toExtends)⟩, G.toExtends.trans G1.toExtends⟩

lemma callocArray_calls (h : callocArray n m count element s = .ok i s') (hn : s.graph.Has n)
    (C : s'.graph.Computes value) : ∃ one total, Calls s'.graph i.node m (s.image.function .calloc).1 [one, total] ∧
      value one = 1 ∧ value total = value count * ofNat element.size + 8 := by
  obtain ⟨one, s1, h, h1⟩ := bind_ok.1 h
  have G := onGraph_gains h rfl
  obtain ⟨size, s2, h, h1⟩ := bind_ok.1 h1
  have G1 := onGraph_gains h rfl
  obtain ⟨header, s3, h, h1⟩ := bind_ok.1 h1
  have G2 := onGraph_gains h rfl
  obtain ⟨data, s4, h, h1⟩ := bind_ok.1 h1
  have G3 := onGraph_gains h rfl
  obtain ⟨total, s5, h, h1⟩ := bind_ok.1 h1
  have G4 := onGraph_gains h rfl
  obtain ⟨array, s6, h, h1⟩ := bind_ok.1 h1
  obtain ⟨hcall, E5⟩ := call_calls h
  have E2 := G3.toExtends.trans (G4.toExtends.trans E5)
  have E0 := G1.toExtends.trans (G2.toExtends.trans E2)
  obtain ⟨p, rfl, ks, S, -⟩ := initArray_extending _ h1 ⟨lt_of_lt_of_le hn (G.toExtends.trans E0).size_le, rfl⟩
  have E6 := S.grown
  have E4 := E5.trans E6
  rw [G4.image, G3.image, G2.image, G1.image, G.image] at hcall
  refine ⟨one, total, hcall.later E6, C.const (G.later (E0.trans E6)), ?_⟩
  rw [C.add (G4.later E4), C.mul (G3.later (G4.toExtends.trans E4)), C.const (G2.later (E2.trans E6)),
    C.const (G1.later (G2.toExtends.trans (E2.trans E6)))]
  obtain h | h | h | h | h := element.size_cases <;> rw [h] <;> rfl

end Lower

namespace TypeRef

variable {element : TypeRef} {i distance count : Nat}

/-- The distance of an element from its array, and the size of an array with so many elements. -/
lemma toNat_bytes (element : TypeRef) (k : UInt32) :
    (k * ofNat element.size + 8).toNat = (k.toNat * element.size + 8) % 2 ^ 32 := by
  simp

lemma accesses_iff : element.Accesses i distance ↔ i < 2 ^ 32 ∧ distance = (i * element.size + 8) % 2 ^ 32 := by
  constructor
  · rintro ⟨f, f', array, index, place, value, h, C, rfl, rfl⟩
    rw [elementAddress_computes h C, size_accessKind, UInt32.add_comm, UInt32.add_sub_cancel, toNat_bytes]
    exact ⟨UInt32.toNat_lt _, rfl⟩
  · rintro ⟨hi, rfl⟩
    -- in an empty graph: nodes 0 to 4 are those of the access, 5 is the array and 6 the index
    let size := (UInt32.ofInt element.accessKind.mode.size).toUInt64.toUInt32
    let value : NodeId → UInt32 := fun n => match n.index with
      | 0 => size
      | 1 => UInt32.ofNat i * size
      | 2 => 8
      | 3 | 4 => UInt32.ofNat i * size + 8
      | 6 => UInt32.ofNat i
      | _ => 0
    have hindex : (UInt32.ofNat i).toNat = i := UInt32.toNat_ofNat_of_lt' hi
    refine ⟨default, _, ⟨5⟩, ⟨6⟩, ⟨4⟩, value, rfl, ?_, hindex, ?_⟩
    · rintro ⟨n⟩ - x hx
      match n with
      | 0 | 1 | 2 | 3 => exact Option.some.inj hx
      | 4 => exact (UInt32.zero_add _).symm.trans (Option.some.inj hx)
      | n + 5 => cases hx
    · have hsize : size = UInt32.ofNat element.size := by rw [← size_accessKind]; exact word_ofInt _
      rw [show value ⟨4⟩ - value ⟨5⟩ = UInt32.ofNat i * size + 8 from UInt32.sub_zero _, hsize, toNat_bytes, hindex]

/-- In an array with `count` elements that has so many bytes, the bytes of each element lie within them, behind the
address of the dispatch table and the length, and apart from those of the other elements. -/
def LaidOut (element : TypeRef) (count bytes : Nat) : Prop :=
  ∀ i < count, ∀ d, element.Accesses i d →
    Abi.pointerSize ≤ d ∧ Abi.arrayLengthOffset + Mode.int.size ≤ d ∧ d + element.size ≤ bytes ∧
      ∀ j < count, j ≠ i → ∀ d', element.Accesses j d' → d + element.size ≤ d' ∨ d' + element.size ≤ d

lemma laidOut_of_fits (h : count * element.size + 8 < 2 ^ 32) : element.LaidOut count (count * element.size + 8) := by
  have step : ∀ {i k}, i < k → i * element.size + element.size ≤ k * element.size := fun hi =>
    Nat.add_one_mul _ _ ▸ Nat.mul_le_mul_right element.size (Nat.succ_le_of_lt hi)
  -- within a size that does not wrap no distance does
  have hd : ∀ i < count, ∀ d, element.Accesses i d → d = i * element.size + 8 := by
    intro i hi d ha
    have := step hi
    rw [(accesses_iff.1 ha).2, Nat.mod_eq_of_lt (by omega)]
  intro i hi d ha
  obtain rfl := hd i hi d ha
  have := step hi
  refine ⟨Nat.le_add_left_of_le (by decide), Nat.le_add_left 8 _, by omega, fun j hj hij d' ha' => ?_⟩
  obtain rfl := hd j hj d' ha'
  rcases Nat.lt_or_gt_of_ne hij with hlt | hlt
  · have := step hlt; omega
  · have := step hlt; omega

/-- If the size wraps, the first element or the one whose distance wraps to nothing is out of place. -/
lemma not_laidOut_of_wraps (h : 2 ^ 32 ≤ count * element.size + 8) :
    ¬ element.LaidOut count ((count * element.size + 8) % 2 ^ 32) := by
  intro L
  by_cases hw : count * element.size < 2 ^ 32
  · have hpos : 0 < count := Nat.pos_of_ne_zero fun h0 => by simp [h0] at h
    have := (L 0 hpos 8 (accesses_iff.2 ⟨by decide, by simp⟩)).2.2.1; omega
  · have hlast : (2 ^ 32 - 8) / element.size < count ∧ (2 ^ 32 - 8) / element.size * element.size + 8 = 2 ^ 32 := by
      obtain hs | hs | hs | hs | hs := element.size_cases <;> simp only [hs] at hw ⊢ <;> omega
    have ha : element.Accesses ((2 ^ 32 - 8) / element.size) 0 :=
      accesses_iff.2 ⟨(Nat.div_le_self _ _).trans_lt (by decide), by rw [hlast.2, Nat.mod_self]⟩
    exact absurd (L _ hlast.1 0 ha).1 (by decide)

lemma laidOut_iff :
    element.LaidOut count ((count * element.size + 8) % 2 ^ 32) ↔ count * element.size + 8 < 2 ^ 32 := by
  refine ⟨fun L => Nat.lt_of_not_le fun hw => not_laidOut_of_wraps hw L, fun h => ?_⟩
  rw [Nat.mod_eq_of_lt h]
  exact laidOut_of_fits h

end TypeRef

section

variable {f f' : Frame} {number converted n m count : NodeId} {s s' : Lowering} {made : Lower.Inserted}
    {element : TypeRef}
  {v value : NodeId → UInt32}

/-- The translation converts a number, and the lowering of the allocation takes the outcome for the number of
elements. What it asks `calloc` for then suits the addresses of the elements exactly if the size does not wrap. -/
theorem array_laidOut_iff (hf : Frame.convert number .unsigned f = .ok converted f') (hm : f.modeOf number = .int)
    (hv : f'.graph.Computes v) (h : Lower.allocate .simple n m count (.array element) s = .ok made s')
    (hn : n.index < s.graph.nodes.size) (hvalue : s'.graph.Computes value) (hc : value count = v converted) :
    ∃ one total, Lower.Calls s'.graph made.node m (s.image.function .calloc).1 [one, total] ∧ value one = 1 ∧
      (element.LaidOut (v number).toNat (value total).toNat ↔ (v number).toNat * element.size + 8 < 2 ^ 32) := by
  obtain ⟨one, total, hcalls, hone, htotal⟩ := Lower.callocArray_calls h hn hvalue
  refine ⟨one, total, hcalls, hone, ?_⟩
  rw [htotal, TypeRef.toNat_bytes, hc, convert_computes hf hm hv]
  exact TypeRef.laidOut_iff

end

/-- The lowering of a `long` array in a graph that does not say how many elements there are. -/
def longArray : EStateM.Result Error Lowering Lower.Inserted :=
  Lower.allocate .simple ⟨0⟩ ⟨0⟩ ⟨20⟩ (.array (.prim .long)) ⟨default, .empty "", default⟩

/-- The values of its nodes if there are `k` elements. -/
def longArrayValue (k : UInt32) (n : NodeId) : UInt32 :=
  match n.index with
  | 1 => 1
  | 2 | 3 => 8
  | 4 => k * 8
  | 5 => k * 8 + 8
  | 10 | 11 => 4
  | 20 => k
  | _ => 0

lemma longArray_ok : ∃ s', longArray = .ok ⟨⟨7⟩, ⟨14⟩, ⟨9⟩⟩ s' ∧ s'.graph.nodes = #[⟨.start, .tuple, ⟨0⟩, []⟩,
    ⟨.const 1, .unsigned, ⟨0⟩, []⟩, ⟨.const 8, .unsigned, ⟨0⟩, []⟩, ⟨.const 8, .unsigned, ⟨0⟩, []⟩,
    ⟨.mul, .unsigned, ⟨0⟩, [⟨20⟩, ⟨2⟩]⟩, ⟨.add, .unsigned, ⟨0⟩, [⟨4⟩, ⟨3⟩]⟩, ⟨.address ⟨0⟩, .reference, ⟨0⟩, []⟩,
    ⟨.call, .tuple, ⟨0⟩, [⟨0⟩, ⟨6⟩, ⟨1⟩, ⟨5⟩]⟩, ⟨.proj 0, .memory, ⟨0⟩, [⟨7⟩]⟩, ⟨.proj 1, .reference, ⟨0⟩, [⟨7⟩]⟩,
    ⟨.const 4, .int, ⟨0⟩, []⟩, ⟨.add, .reference, ⟨0⟩, [⟨9⟩, ⟨10⟩]⟩, ⟨.conv, .int, ⟨0⟩, [⟨20⟩]⟩,
    ⟨.store, .tuple, ⟨0⟩, [⟨8⟩, ⟨11⟩, ⟨12⟩]⟩, ⟨.proj 0, .memory, ⟨0⟩, [⟨13⟩]⟩] :=
  ⟨_, rfl, rfl⟩

lemma longArray_computes (k : UInt32) :
    ∃ s', longArray = .ok ⟨⟨7⟩, ⟨14⟩, ⟨9⟩⟩ s' ∧ s'.graph.Computes (longArrayValue k) := by
  obtain ⟨s', h, hnodes⟩ := longArray_ok
  refine ⟨s', h, ?_⟩
  rintro ⟨n⟩ - x hx
  unfold computed? node at hx
  rw [hnodes] at hx
  match n with
  | 0 | 6 | 7 | 8 | 9 | 13 | 14 => simp at hx
  | 12 => simp [Mode.isWord] at hx
  | 1 | 2 | 3 | 4 | 5 | 10 | 11 => simpa [longArrayValue] using hx
  | n + 15 => simp at hx

theorem array_laidOut_iff_three : ∃ s' one total, longArray = .ok ⟨⟨7⟩, ⟨14⟩, ⟨9⟩⟩ s' ∧
    Lower.Calls s'.graph ⟨7⟩ ⟨0⟩ ⟨0⟩ [one, total] ∧ longArrayValue 3 one = 1 ∧
      ((TypeRef.prim .long).LaidOut 3 (longArrayValue 3 total).toNat ↔ 3 * 8 + 8 < 2 ^ 32) := by
  obtain ⟨s', h, C⟩ := longArray_computes 3
  -- a frame in which the number is a constant that is 3
  let f : Frame :=
    { (default : Frame) with builder := { (default : Ssa.Builder) with graph := (constInt default 3).2 } }
  obtain ⟨one, total, hall⟩ := array_laidOut_iff (v := fun _ => 3)
    (show convert ⟨0⟩ .unsigned f = .ok ⟨1⟩ _ from rfl) rfl (by
      rintro ⟨n⟩ - x hx
      match n with
      | 0 | 1 => exact Option.some.inj hx
      | n + 2 => cases hx) h (by decide) C rfl
  exact ⟨s', one, total, h, hall⟩

/-- For `2 ^ 29` elements of 8 bytes no more than the header is asked for. -/
theorem long_array_not_laidOut : ∃ s' one total, longArray = .ok ⟨⟨7⟩, ⟨14⟩, ⟨9⟩⟩ s' ∧
    s'.graph.Computes (longArrayValue (.ofNat (2 ^ 29))) ∧ Lower.Calls s'.graph ⟨7⟩ ⟨0⟩ ⟨0⟩ [one, total] ∧
      longArrayValue (.ofNat (2 ^ 29)) one = 1 ∧ longArrayValue (.ofNat (2 ^ 29)) total = 8 ∧
      ¬ (TypeRef.prim .long).LaidOut (2 ^ 29) 8 := by
  obtain ⟨s', h, C⟩ := longArray_computes (.ofNat (2 ^ 29))
  obtain ⟨one, total, hcalls, hone, htotal⟩ := Lower.callocArray_calls h (by decide) C
  exact ⟨s', one, total, h, C, hcalls, hone, htotal, TypeRef.not_laidOut_of_wraps (by decide)⟩

end JvmGraph
