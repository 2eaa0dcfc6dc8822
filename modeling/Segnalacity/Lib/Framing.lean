import Mathlib.Data.List.Basic
import Mathlib.Data.List.Infix
import Mathlib.Tactic.Common

/-! # Cutting a byte stream into frames

A receiver appends every chunk to a buffer; when the buffer is `complete` it hands the whole
buffer over and empties it.  A frame is a byte string that is complete whatever follows it while
no proper prefix of it is (`IsFrame`).

* `receiveAll_inside`: inside a frame the receiver only accumulates.
* `handed_iff`: on a stream of frames the receiver hands over exactly these frames, as far as a
  view `g` that sees trailing bytes can tell, if and only if no chunk reaches over the end of a
  frame (`Aligned`). -/

namespace Framing

variable {β γ : Type} (complete : List β → Bool)

/-- Receiver state: the buffer and the buffers handed over. -/
abbrev Receiver (β : Type) := List β × List (List β)

/-- One chunk arrives. -/
def receive (s : Receiver β) (chunk : List β) : Receiver β :=
  if complete (s.1 ++ chunk) then ([], s.2 ++ [s.1 ++ chunk]) else (s.1 ++ chunk, s.2)

def receiveAll (s : Receiver β) (chunks : List (List β)) : Receiver β :=
  chunks.foldl (receive complete) s

/-- A byte string that marks its own end. -/
structure IsFrame (w : List β) : Prop where
  ne_nil : w ≠ []
  before : ∀ p x, w = p ++ x → x ≠ [] → complete p = false
  after : ∀ x, complete (w ++ x) = true

/-- The chunks fall into groups, one for each frame. -/
def Aligned (chunks ws : List (List β)) : Prop :=
  ∃ groups : List (List (List β)), groups.flatten = chunks ∧ groups.map List.flatten = ws

variable {complete} {w x : List β} {out : List (List β)}

@[simp] theorem receiveAll_nil (s : Receiver β) : receiveAll complete s [] = s := rfl

@[simp] theorem receiveAll_cons (s : Receiver β) (c : List β) (cs : List (List β)) :
    receiveAll complete s (c :: cs) = receiveAll complete (receive complete s c) cs := rfl

theorem receiveAll_append (s : Receiver β) (cs ds : List (List β)) :
    receiveAll complete s (cs ++ ds) = receiveAll complete (receiveAll complete s cs) ds :=
  List.foldl_append

/-- What was handed over stays handed over. -/
theorem receiveAll_out : ∀ (s : Receiver β) (cs : List (List β)),
    ∃ more, (receiveAll complete s cs).2 = s.2 ++ more
  | s, [] => ⟨[], by simp⟩
  | s, c :: cs => by
      obtain ⟨more, h⟩ := receiveAll_out (receive complete s c) cs
      rw [receiveAll_cons, h]
      unfold receive
      split_ifs
      · exact ⟨[s.1 ++ c] ++ more, by simp⟩
      · exact ⟨more, rfl⟩

/-- Inside a frame the receiver only accumulates. -/
theorem receiveAll_inside (hw : IsFrame complete w) (out : List (List β)) :
    ∀ (acc : List β) (cs : List (List β)) (y : List β), w = acc ++ cs.flatten ++ y → y ≠ [] →
      receiveAll complete (acc, out) cs = (acc ++ cs.flatten, out)
  | acc, [], y, _, _ => by simp
  | acc, c :: cs, y, h, hy => by
      have h' : w = (acc ++ c) ++ cs.flatten ++ y := by simpa using h
      have hpart : complete (acc ++ c) = false :=
        hw.before (acc ++ c) (cs.flatten ++ y) (by simpa using h) (by simp [hy])
      rw [receiveAll_cons, receive, hpart, if_neg Bool.false_ne_true,
        receiveAll_inside hw out (acc ++ c) cs y h' hy]
      simp

/-- The chunks up to the one that reaches the end of the first frame. -/
theorem exists_reach : ∀ (cs : List (List β)) (w y : List β), w ≠ [] → cs.flatten = w ++ y →
    (∀ c ∈ cs, c ≠ []) → ∃ pre c post z, cs = pre ++ c :: post ∧ pre.flatten ++ c = w ++ z ∧
      ∃ u, u ≠ [] ∧ w = pre.flatten ++ u
  | [], w, y, hw, h, _ => by
      obtain ⟨h', -⟩ := List.append_eq_nil_iff.mp h.symm
      exact absurd h' hw
  | c :: cs, w, y, hw, h, hne => by
      have h' : c ++ cs.flatten = w ++ y := by simpa using h
      rcases List.append_eq_append_iff.mp h' with ⟨a, rfl, hcs⟩ | ⟨z, rfl, -⟩
      · by_cases ha : a = []
        · subst ha
          exact ⟨[], c, cs, [], rfl, by simp, c, hne c List.mem_cons_self, by simp⟩
        · obtain ⟨pre, d, post, z, rfl, hz, u, hu, rfl⟩ :=
            exists_reach cs a y ha hcs fun d hd => hne d (List.mem_cons_of_mem _ hd)
          exact ⟨c :: pre, d, post, z, rfl, by simpa using hz, u, hu, by simp⟩
      · exact ⟨[], w ++ z, cs, z, rfl, by simp, w, hw, by simp⟩

/-! ### Where the chunks end -/

/-- Without empty chunks the text determines where a list of chunks is cut. -/
theorem cut_unique : ∀ {gr rest pre post : List (List β)}, (∀ c ∈ gr ++ rest, c ≠ []) →
    gr ++ rest = pre ++ post → gr.flatten = pre.flatten → gr = pre ∧ rest = post
  | [], rest, [], post, _, h, _ => ⟨rfl, by simpa using h⟩
  | [], rest, d :: pre, post, hne, h, hf => by
      have hd : d = [] := (List.append_eq_nil_iff.mp hf.symm).1
      exact absurd hd (hne d (by rw [h]; simp))
  | d :: gr, rest, [], post, hne, _, hf => by
      have hd : d = [] := (List.append_eq_nil_iff.mp hf).1
      exact absurd hd (hne d (by simp))
  | d :: gr, rest, e :: pre, post, hne, h, hf => by
      obtain ⟨rfl, htail⟩ := List.cons.inj h
      have hf' : gr.flatten = pre.flatten := List.append_cancel_left hf
      obtain ⟨rfl, hrest⟩ := cut_unique (fun c hc => hne c (List.mem_cons_of_mem _ hc)) htail hf'
      exact ⟨rfl, hrest⟩

theorem aligned_cons_iff {cs post ws : List (List β)} (hne : ∀ c ∈ cs ++ post, c ≠ [])
    (hcs : cs.flatten = w) : Aligned (cs ++ post) (w :: ws) ↔ Aligned post ws := by
  constructor
  · rintro ⟨groups, hgr, hmap⟩
    cases groups with
    | nil => simp at hmap
    | cons gr groups =>
        obtain ⟨hgw, hmap⟩ := List.cons.inj hmap
        rw [List.flatten_cons] at hgr
        exact ⟨groups, (cut_unique (by rwa [hgr]) hgr (hgw.trans hcs.symm)).2, hmap⟩
  · rintro ⟨groups, rfl, rfl⟩
    exact ⟨cs :: groups, by simp, by simp [hcs]⟩

/-- A chunk that reaches over the end of the first frame belongs to no group. -/
theorem not_aligned_of_over {pre post ws : List (List β)} {c u z : List β}
    (hw : w = pre.flatten ++ u) (hu : u ≠ []) (hz : pre.flatten ++ c = w ++ z) (hz0 : z ≠ []) :
    ¬ Aligned (pre ++ c :: post) (w :: ws) := by
  rintro ⟨groups, hgr, hmap⟩
  have hu' := List.length_pos_iff.mpr hu
  have hz' := List.length_pos_iff.mpr hz0
  have hlw := congrArg List.length hw
  have hlz := congrArg List.length hz
  simp only [List.length_append] at hlw hlz
  cases groups with
  | nil => simp at hmap
  | cons gr groups =>
      obtain ⟨hgw, -⟩ := List.cons.inj hmap
      rw [List.flatten_cons] at hgr
      rcases List.append_eq_append_iff.mp hgr with ⟨a, ha, -⟩ | ⟨a, ha, hb⟩
      · -- a group inside `pre` is shorter than the frame
        have := congrArg List.length (congrArg List.flatten ha)
        simp only [List.flatten_append, List.length_append, hgw] at this
        omega
      · cases a with
        | nil =>
            have := congrArg List.length (congrArg List.flatten ha)
            simp only [List.append_nil, hgw] at this
            omega
        | cons d ds =>
            -- a group with the chunk `c` is longer than the frame
            obtain ⟨rfl, -⟩ := List.cons.inj hb
            have := congrArg List.length (congrArg List.flatten ha)
            simp only [List.flatten_append, List.flatten_cons, List.length_append, hgw] at this
            omega

/-- **A receiver that hands over its whole buffer is right exactly when no chunk reaches over
the end of a frame.** -/
theorem handed_iff (g : List β → γ) : ∀ (ws chunks : List (List β)) (out : List (List β)),
    (∀ w ∈ ws, IsFrame complete w) → (∀ w ∈ ws, ∀ x, g (w ++ x) = g w → x = []) →
      (∀ c ∈ chunks, c ≠ []) → chunks.flatten = ws.flatten →
        ((receiveAll complete ([], out) chunks).2.map g = out.map g ++ ws.map g ↔
          Aligned chunks ws)
  | [], chunks, out, _, _, hne, hflat => by
      cases chunks with
      | nil => simpa using ⟨[], rfl, rfl⟩
      | cons c cs =>
          have hc : c = [] := (List.append_eq_nil_iff.mp hflat).1
          exact absurd hc (hne c List.mem_cons_self)
  | w :: ws, chunks, out, hws, hg, hne, hflat => by
      have hw := hws w List.mem_cons_self
      obtain ⟨pre, c, post, z, rfl, hz, u, hu, hwu⟩ :=
        exists_reach chunks w ws.flatten hw.ne_nil (by simpa using hflat) hne
      have hin : receiveAll complete ([], out) pre = (pre.flatten, out) := by
        simpa using receiveAll_inside hw out [] pre u (by simpa using hwu) hu
      have hhand : receive complete (pre.flatten, out) c = ([], out ++ [w ++ z]) := by
        rw [receive, hz, if_pos (hw.after z)]
      have hrun : receiveAll complete ([], out) (pre ++ c :: post) =
          receiveAll complete ([], out ++ [w ++ z]) post := by
        rw [receiveAll_append, hin, receiveAll_cons, hhand]
      by_cases hz0 : z = []
      · -- the chunk ends with the frame: the rest of the stream is handled alike
        subst hz0
        rw [List.append_nil] at hz hrun
        have hsplit : pre ++ c :: post = (pre ++ [c]) ++ post := by simp
        have hcs : (pre ++ [c]).flatten = w := by simpa using hz
        have hrest : post.flatten = ws.flatten := by
          rw [hsplit, List.flatten_append, hcs, List.flatten_cons] at hflat
          exact List.append_cancel_left hflat
        have ih := handed_iff g ws post (out ++ [w]) (fun v hv => hws v (List.mem_cons_of_mem _ hv))
          (fun v hv => hg v (List.mem_cons_of_mem _ hv))
          (fun d hd => hne d (by simp [hd])) hrest
        rw [hrun, show out.map g ++ (w :: ws).map g = (out ++ [w]).map g ++ ws.map g by simp, ih,
          hsplit, aligned_cons_iff (by rwa [← hsplit]) hcs]
      · -- the chunk reaches over the end of the frame: the buffer handed over is too long
        refine iff_of_false (fun h => ?_) (not_aligned_of_over hwu hu hz hz0)
        obtain ⟨more, hmore⟩ := receiveAll_out ([], out ++ [w ++ z]) post
        rw [hrun, hmore, List.map_append, List.map_append, List.append_assoc] at h
        have hhead := List.append_cancel_left h
        simp only [List.map_cons, List.map_nil, List.singleton_append, List.cons.injEq] at hhead
        exact hz0 (hg w List.mem_cons_self z hhead.1)

end Framing
