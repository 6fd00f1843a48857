import Attest.Trust.Specs
import Mathlib.Data.Set.Card
import Mathlib.Logic.Relation

/-! Receipts written at the same time, as `write_receipt_unique` has it.

Any number of calls write into one directory. A step lets one of them try a name, write
some of its bytes or return. What a name stands for is its last component in the directory
that the rest of the path leads to, so that a label with slashes and two ways to one
directory are covered. No call ever writes to a file that another has made
(`standing_step`). The names of one call are told apart by a counter of 32 bits that starts
again when it runs out: a call that finds every one of them taken never stops
(`receipts_written_once`). -/
namespace Attest.Storage.Writers
open Library
open Trust (Bytes Node hexEncode joinPath utf8)

/-! ### Names -/

structure Request where
  stamp : String
  label : Option String
  content : String

def shortHash (blake3 : Bytes → Vector UInt8 32) (content : String) : String :=
  String.ofList ((hexEncode (blake3 (utf8 content)).toList).toList.take 12)

def base (blake3 : Bytes → Vector UInt8 32) (request : Request) : String :=
  match request.label with
  | some label =>
    String.join ["receipt_", request.stamp, "_", label, "_", shortHash blake3 request.content]
  | none => String.join ["receipt_", request.stamp, "_", shortHash blake3 request.content]

/-- What the name of an attempt ends in. -/
def ending (attempt : UInt32) : String :=
  if attempt = 0 then ".yaml" else String.join ["-", toString attempt.toNat, ".yaml"]

def name (blake3 : Bytes → Vector UInt8 32) (request : Request) (attempt : UInt32) : String :=
  base blake3 request ++ ending attempt

/-! ### Places -/

/-- A path up to its last slash. -/
def parent (path : String) : List Char := (path.toList.reverse.dropWhile (· ≠ '/')).reverse

def fileName (path : String) : List Char := (path.toList.reverse.takeWhile (· ≠ '/')).reverse

/-- The calls, and the directory as they see it: `locate` says which directory a path up
to a slash leads to. -/
structure Setting (ι D : Type) where
  blake3 : Bytes → Vector UInt8 32
  dir : String
  locate : List Char → D
  requests : ι → Request

namespace Setting
variable {ι D : Type} (e : Setting ι D)

def place (path : String) : D × List Char := (e.locate (parent path), fileName path)

def path (i : ι) (attempt : UInt32) : String :=
  joinPath e.dir (name e.blake3 (e.requests i) attempt)

def content (i : ι) : Bytes := utf8 (e.requests i).content

end Setting

/-! ### Runs -/

inductive Phase
  | opening (attempt : UInt32)
  | writing (written : Nat)
  | returned
  | failed

/-- A call: where it is, how often it has tried a name, and the path of the file that it
has made. -/
structure Call where
  phase : Phase := .opening 0
  tries : Nat := 0
  created : Option String := none

structure State (ι D : Type) where
  files : D × List Char → Option (Node Bytes)
  calls : ι → Call

def start {ι D : Type} (files : D × List Char → Option (Node Bytes)) : State ι D :=
  ⟨files, fun _ => {}⟩

/-- A write at an offset. -/
def overwrite (bytes : Bytes) (offset : Nat) (chunk : Bytes) : Bytes :=
  bytes.take offset ++ chunk ++ bytes.drop (offset + chunk.length)

namespace Setting
variable {ι D : Type} [DecidableEq ι] [DecidableEq D] (e : Setting ι D)

/-- One call goes on. Any open may be refused, any write may fail or take some of the bytes
only, and the counter of a release build starts again after its last value. -/
inductive Step (s : State ι D) : State ι D → Prop
  | create (i : ι) (attempt : UInt32) (hphase : (s.calls i).phase = .opening attempt)
      (hfree : s.files (e.place (e.path i attempt)) = none) :
      Step s ⟨Function.update s.files (e.place (e.path i attempt)) (some (.file [])),
        Function.update s.calls i
          ⟨.writing 0, (s.calls i).tries + 1, some (e.path i attempt)⟩⟩
  | clash (i : ι) (attempt : UInt32) (hphase : (s.calls i).phase = .opening attempt)
      (htaken : s.files (e.place (e.path i attempt)) ≠ none) :
      Step s ⟨s.files, Function.update s.calls i
        { s.calls i with phase := .opening (attempt + 1), tries := (s.calls i).tries + 1 }⟩
  | refuse (i : ι) (attempt : UInt32) (hphase : (s.calls i).phase = .opening attempt) :
      Step s ⟨s.files, Function.update s.calls i
        { s.calls i with phase := .failed, tries := (s.calls i).tries + 1 }⟩
  | write (i : ι) (path : String) (bytes : Bytes) (written amount : Nat)
      (hphase : (s.calls i).phase = .writing written) (hpath : (s.calls i).created = some path)
      (hfile : s.files (e.place path) = some (.file bytes))
      (hamount : written + amount ≤ (e.content i).length) :
      Step s ⟨Function.update s.files (e.place path)
          (some (.file (overwrite bytes written (((e.content i).drop written).take amount)))),
        Function.update s.calls i { s.calls i with phase := .writing (written + amount) }⟩
  | finish (i : ι) (hphase : (s.calls i).phase = .writing (e.content i).length) :
      Step s ⟨s.files, Function.update s.calls i { s.calls i with phase := .returned }⟩
  | fail (i : ι) (written : Nat) (hphase : (s.calls i).phase = .writing written) :
      Step s ⟨s.files, Function.update s.calls i { s.calls i with phase := .failed }⟩

/-- A state that the calls can reach. -/
def Reached (files : D × List Char → Option (Node Bytes)) (s : State ι D) : Prop :=
  Relation.ReflTransGen e.Step (start files) s

end Setting

namespace State
variable {ι D : Type} (s : State ι D)

/-- The call has returned this path. -/
def Returns (i : ι) (path : String) : Prop :=
  (s.calls i).phase = .returned ∧ (s.calls i).created = some path

end State

namespace Setting
variable {ι D : Type} (e : Setting ι D)

/-- The files that stand where the call tries to write, its own apart. -/
def clashing (s : State ι D) (i : ι) : Set (D × List Char) :=
  {p | (∃ attempt, p = e.place (e.path i attempt)) ∧ s.files p ≠ none ∧
    ∀ path, (s.calls i).created = some path → p ≠ e.place path}

/-- Every receipt is where its writer was told, and nothing is written over. -/
structure Kept (files : D × List Char → Option (Node Bytes)) (s : State ι D) : Prop where
  distinct : ∀ i j path, s.Returns i path → s.Returns j path → i = j
  exact : ∀ i path, s.Returns i path → s.files (e.place path) = some (.file (e.content i))
  untouched : ∀ p node, files p = some node → s.files p = some node

/-- Each call has made at most one more attempt than there are files in its way. -/
def Frugal (s : State ι D) : Prop :=
  ∀ i, ((s.calls i).tries : ℕ∞) ≤ (e.clashing s i).encard + 1

/-- A call that still looks for a name has one that is not taken. -/
def NamesLeft (s : State ι D) : Prop :=
  ∀ i attempt, (s.calls i).phase = .opening attempt →
    ∃ k, s.files (e.place (e.path i k)) = none

end Setting

/-! ### The places of one call -/

section Places
variable {ι D : Type} {e : Setting ι D} {i : ι} {a b : UInt32}

theorem toList_ending (attempt : UInt32) : (ending attempt).toList =
    if attempt = 0 then ".yaml".toList
    else '-' :: ((toString attempt.toNat).toList ++ ".yaml".toList) := by
  unfold ending
  split
  next => rfl
  next => simp [String.join]

theorem slash_notMem_ending (attempt : UInt32) : '/' ∉ (ending attempt).toList := by
  rw [toList_ending]
  split
  next => decide
  next =>
    have hdigits : '/' ∉ (toString attempt.toNat).toList := by
      intro hmem
      have hdigit := Nat.isDigit_of_mem_toDigits (by decide) (by decide)
        (show '/' ∈ Nat.toDigits 10 attempt.toNat by simpa using hmem)
      exact absurd hdigit (by decide)
    simp only [List.mem_cons, List.mem_append, not_or]
    exact ⟨by decide, hdigits, by decide⟩

theorem ending_injective (h : (ending a).toList = (ending b).toList) : a = b := by
  rw [toList_ending, toList_ending] at h
  split at h
  next ha =>
    split at h
    next hb => rw [ha, hb]
    next => exact absurd (congrArg List.head? h) (by simp)
  next ha =>
    split at h
    next => exact absurd (congrArg List.head? h) (by simp)
    next =>
      have hdigits := List.append_cancel_right (List.cons.inj h).2
      exact UInt32.toNat_inj.mp (Text.toString_nat_inj (String.toList_inj.mp hdigits))

theorem fileName_append {stem rest : String} (h : '/' ∉ rest.toList) :
    fileName (stem ++ rest) = fileName stem ++ rest.toList := by
  have hall : ∀ c ∈ rest.toList.reverse, decide (c ≠ '/') = true := by
    intro c hc
    have hmem := List.mem_reverse.mp hc
    exact decide_eq_true fun heq => h (heq ▸ hmem)
  unfold fileName
  rw [String.toList_append, List.reverse_append, List.takeWhile_append_of_pos hall,
    List.reverse_append, List.reverse_reverse]

theorem joinPath_append (path first rest : String) :
    joinPath path (first ++ rest) = joinPath path first ++ rest := by
  unfold joinPath
  split <;> simp only [String.append_assoc]

theorem path_eq (attempt : UInt32) : e.path i attempt =
    joinPath e.dir (base e.blake3 (e.requests i)) ++ ending attempt :=
  joinPath_append _ _ _

/-- The names that one call tries stand for places of their own. -/
theorem place_injective (h : e.place (e.path i a) = e.place (e.path i b)) : a = b := by
  have hnames := (Prod.mk.inj h).2
  rw [path_eq, path_eq, fileName_append (slash_notMem_ending a),
    fileName_append (slash_notMem_ending b)] at hnames
  exact ending_injective (List.append_cancel_left hnames)

end Places

/-! ### What holds along a run -/

section Invariant
variable {ι D : Type} {e : Setting ι D} {files : D × List Char → Option (Node Bytes)}
  {s t : State ι D} {i j : ι}

/-- The first names of a call are taken. -/
def Taken (e : Setting ι D) (s : State ι D) (i : ι) (n : Nat) : Prop :=
  ∀ k < n, s.files (e.place (e.path i (UInt32.ofNat k))) ≠ none

/-- The call has made a file that was not there, at the first name that was free, and
has written these bytes to it. -/
structure Owns (e : Setting ι D) (files : D × List Char → Option (Node Bytes)) (s : State ι D)
    (i : ι) (n : Nat) (bytes : Bytes) : Prop where
  tries : (s.calls i).tries = n + 1
  range : n < 2 ^ 32
  created : (s.calls i).created = some (e.path i (UInt32.ofNat n))
  absent : files (e.place (e.path i (UInt32.ofNat n))) = none
  holds : s.files (e.place (e.path i (UInt32.ofNat n))) = some (.file bytes)
  taken : Taken e s i n

/-- What is known of a call by where it is. -/
def Standing (e : Setting ι D) (files : D × List Char → Option (Node Bytes)) (s : State ι D)
    (i : ι) : Prop :=
  match (s.calls i).phase with
  | .opening attempt => (s.calls i).created = none ∧
      attempt = UInt32.ofNat (s.calls i).tries ∧ Taken e s i (s.calls i).tries
  | .writing written => written ≤ (e.content i).length ∧
      ∃ n, Owns e files s i n ((e.content i).take written)
  | .returned => ∃ n, Owns e files s i n (e.content i)
  | .failed => (s.calls i).created = none ∨ ∃ n bytes, Owns e files s i n bytes

structure Inv (e : Setting ι D) (files : D × List Char → Option (Node Bytes))
    (s : State ι D) : Prop where
  untouched : ∀ p node, files p = some node → s.files p = some node
  standing : ∀ i, Standing e files s i
  apart : ∀ i j a b, (s.calls i).created = some a → (s.calls j).created = some b →
    e.place a = e.place b → i = j

/-- Whoever has made a file has made one that was not there and still is. -/
theorem owns_of_created (h : Standing e files s i) {path : String}
    (hpath : (s.calls i).created = some path) : ∃ n bytes, Owns e files s i n bytes := by
  unfold Standing at h
  split at h
  next =>
    rw [h.1] at hpath
    cases hpath
  next =>
    obtain ⟨_, n, howns⟩ := h
    exact ⟨n, _, howns⟩
  next =>
    obtain ⟨n, howns⟩ := h
    exact ⟨n, _, howns⟩
  next =>
    rcases h with hnone | howns
    · rw [hnone] at hpath
      cases hpath
    · exact howns

theorem Owns.holds_of_created {n : Nat} {bytes : Bytes} (h : Owns e files s i n bytes)
    {path : String} (hpath : (s.calls i).created = some path) :
    files (e.place path) = none ∧ s.files (e.place path) = some (.file bytes) := by
  cases h.created.symm.trans hpath
  exact ⟨h.absent, h.holds⟩

/-- What one step of a call leaves alone: other calls, and every file but its own. -/
structure Turn (e : Setting ι D) (s t : State ι D) (i : ι) : Prop where
  others : ∀ j, j ≠ i → t.calls j = s.calls j
  grows : ∀ p, s.files p ≠ none → t.files p ≠ none
  keeps : ∀ p, s.files p ≠ none → (∀ path, (s.calls i).created = some path → p ≠ e.place path) →
    t.files p = s.files p
  created : ∀ path, (t.calls i).created = some path →
    (s.calls i).created = some path ∨ s.files (e.place path) = none

theorem taken_mono (hgrows : ∀ p, s.files p ≠ none → t.files p ≠ none) {n : Nat}
    (h : Taken e s i n) : Taken e t i n := fun k hk => hgrows _ (h k hk)

theorem owns_congr (hcall : t.calls j = s.calls j)
    (hgrows : ∀ p, s.files p ≠ none → t.files p ≠ none) {n : Nat} {bytes bytes' : Bytes}
    (hfile : t.files (e.place (e.path j (UInt32.ofNat n))) = some (.file bytes'))
    (h : Owns e files s j n bytes) : Owns e files t j n bytes' where
  tries := by rw [hcall, h.tries]
  range := h.range
  created := by rw [hcall, h.created]
  absent := h.absent
  holds := hfile
  taken := taken_mono hgrows h.taken

theorem standing_congr (hcall : t.calls j = s.calls j)
    (hgrows : ∀ p, s.files p ≠ none → t.files p ≠ none)
    (hkeeps : ∀ path, (s.calls j).created = some path →
      t.files (e.place path) = s.files (e.place path)) (h : Standing e files s j) :
    Standing e files t j := by
  have howns : ∀ n bytes, Owns e files s j n bytes → Owns e files t j n bytes := by
    intro n bytes h
    exact owns_congr hcall hgrows ((hkeeps _ h.created).trans h.holds) h
  unfold Standing at h ⊢
  rw [hcall]
  split at h
  next => exact ⟨h.1, h.2.1, taken_mono hgrows h.2.2⟩
  next =>
    obtain ⟨hwritten, n, h⟩ := h
    exact ⟨hwritten, n, howns _ _ h⟩
  next =>
    obtain ⟨n, h⟩ := h
    exact ⟨n, howns _ _ h⟩
  next =>
    rcases h with hnone | ⟨n, bytes, h⟩
    · exact .inl hnone
    · exact .inr ⟨n, bytes, howns _ _ h⟩

/-- A turn that leaves its own call well keeps everything. -/
theorem inv_turn (h : Inv e files s) (hturn : Turn e s t i) (hi : Standing e files t i) :
    Inv e files t := by
  have hothers : ∀ j, j ≠ i → ∀ path, (s.calls j).created = some path →
      t.files (e.place path) = s.files (e.place path) := by
    intro j hj path hpath
    obtain ⟨n, bytes, howns⟩ := owns_of_created (h.standing j) hpath
    have hholds := (howns.holds_of_created hpath).2
    refine hturn.keeps _ (by rw [hholds]; exact Option.some_ne_none _) ?_
    intro own hown heq
    exact hj (h.apart j i path own hpath hown heq)
  have hfresh : ∀ j, j ≠ i → ∀ a b, (t.calls i).created = some a →
      (s.calls j).created = some b → e.place a ≠ e.place b := by
    intro j hj a b ha hb heq
    rcases hturn.created a ha with hold | hfree
    · exact hj (h.apart j i b a hb hold heq.symm)
    · obtain ⟨n, bytes, howns⟩ := owns_of_created (h.standing j) hb
      rw [heq, (howns.holds_of_created hb).2] at hfree
      cases hfree
  constructor
  · intro p node hp
    have hs := h.untouched p node hp
    rw [hturn.keeps p (by rw [hs]; exact Option.some_ne_none _), hs]
    intro path hpath heq
    obtain ⟨n, bytes, howns⟩ := owns_of_created (h.standing i) hpath
    rw [heq, (howns.holds_of_created hpath).1] at hp
    cases hp
  · intro j
    by_cases hj : j = i
    · rw [hj]
      exact hi
    · exact standing_congr (hturn.others j hj) hturn.grows (hothers j hj) (h.standing j)
  · intro j k a b ha hb heq
    by_cases hj : j = i
    · by_cases hk : k = i
      · rw [hj, hk]
      · rw [hturn.others k hk] at hb
        rw [hj] at ha
        exact absurd heq (hfresh k hk a b ha hb)
    · rw [hturn.others j hj] at ha
      by_cases hk : k = i
      · rw [hk] at hb
        exact absurd heq.symm (hfresh j hj b a hb ha)
      · rw [hturn.others k hk] at hb
        exact h.apart j k a b ha hb heq

/-- The first name that is free is reached before the counter starts again. -/
theorem lt_of_free {n : Nat} (h : Taken e s i n)
    (hfree : s.files (e.place (e.path i (UInt32.ofNat n))) = none) : n < 2 ^ 32 := by
  by_contra hge
  have hlt : n % 2 ^ 32 < n := lt_of_lt_of_le (Nat.mod_lt _ (by decide)) (not_lt.mp hge)
  have hsame : UInt32.ofNat (n % 2 ^ 32) = UInt32.ofNat n := by
    apply UInt32.toNat_inj.mp
    simp
  have htaken := h _ hlt
  rw [hsame] at htaken
  exact htaken hfree

theorem overwrite_take {content : Bytes} {written amount : Nat}
    (h : written + amount ≤ content.length) :
    overwrite (content.take written) written ((content.drop written).take amount) =
      content.take (written + amount) := by
  have hrest : (content.take written).drop
      (written + ((content.drop written).take amount).length) = [] := by
    apply List.drop_eq_nil_of_le
    simp only [List.length_take]
    omega
  unfold overwrite
  rw [hrest, List.append_nil, List.take_take, min_self, List.take_add]

theorem taken_succ {i : ι} {n : Nat} (h : Taken e s i n)
    (htaken : s.files (e.place (e.path i (UInt32.ofNat n))) ≠ none) : Taken e s i (n + 1) := by
  intro k hk
  rcases Nat.lt_succ_iff_lt_or_eq.mp hk with hlt | heq
  · exact h k hlt
  · rw [heq]
    exact htaken

theorem ofNat_succ (n : Nat) : UInt32.ofNat n + 1 = UInt32.ofNat (n + 1) := by
  rw [UInt32.ofNat_add]
  rfl

theorem update_ne_none [DecidableEq D] {p q : D × List Char} {node : Node Bytes}
    (h : s.files q ≠ none) : Function.update s.files p (some node) q ≠ none := by
  by_cases hq : q = p
  · rw [hq, Function.update_self]
    exact Option.some_ne_none _
  · rw [Function.update_of_ne hq]
    exact h

end Invariant

/-! ### Steps -/

section Steps
variable {ι D : Type} [DecidableEq ι] {e : Setting ι D}
  {files : D × List Char → Option (Node Bytes)} {s t : State ι D}

/-- What a call that has moved is known to own. -/
theorem owns_of_move {i : ι} {n : Nat} {bytes : Bytes} (phase : Phase)
    (h : Owns e files s i n bytes) :
    Owns e files ⟨s.files, Function.update s.calls i { s.calls i with phase := phase }⟩ i n bytes where
  tries := by simp only [Function.update_self, h.tries]
  range := h.range
  created := by simp only [Function.update_self, h.created]
  absent := h.absent
  holds := h.holds
  taken := h.taken

/-- A turn that only moves its call. -/
theorem turn_of_move {i : ι} {call : Call} (h : call.created = (s.calls i).created) :
    Turn e s ⟨s.files, Function.update s.calls i call⟩ i where
  others _ hj := Function.update_of_ne hj _ _
  grows _ hp := hp
  keeps _ _ _ := rfl
  created path hpath := by
    dsimp only at hpath
    rw [Function.update_self, h] at hpath
    exact .inl hpath

variable [DecidableEq D]

/-- A turn that puts bytes where its call has its file, or where nothing stands. -/
theorem turn_of_put {i : ι} {call : Call} {path : String} {node : Node Bytes}
    (hcall : call.created = some path)
    (h : (s.calls i).created = some path ∨ s.files (e.place path) = none) :
    Turn e s ⟨Function.update s.files (e.place path) (some node),
      Function.update s.calls i call⟩ i where
  others _ hj := Function.update_of_ne hj _ _
  grows _ hp := update_ne_none hp
  keeps p hp hown := by
    apply Function.update_of_ne
    intro heq
    rcases h with hcreated | hfree
    · exact hown path hcreated heq
    · exact hp (heq ▸ hfree)
  created path' hpath := by
    dsimp only at hpath
    rw [Function.update_self, hcall] at hpath
    cases hpath
    exact h

/-- A call that has put bytes where it has its file, with the first names taken. -/
theorem owns_of_put {i : ι} {n : Nat} (bytes : Bytes) (call : Call) (htries : call.tries = n + 1)
    (hrange : n < 2 ^ 32) (hcreated : call.created = some (e.path i (UInt32.ofNat n)))
    (habsent : files (e.place (e.path i (UInt32.ofNat n))) = none) (htaken : Taken e s i n) :
    Owns e files ⟨Function.update s.files (e.place (e.path i (UInt32.ofNat n)))
      (some (.file bytes)), Function.update s.calls i call⟩ i n bytes where
  tries := by simp only [Function.update_self, htries]
  range := hrange
  created := by simp only [Function.update_self, hcreated]
  absent := habsent
  holds := Function.update_self ..
  taken := taken_mono (fun _ hp => update_ne_none hp) htaken

/-- After its step a call stands as it should, with a file of its own or, where it was
looking for a name, with one more name tried. -/
theorem standing_step (h : Inv e files s) (hstep : e.Step s t) :
    ∃ i, Turn e s t i ∧ Standing e files t i ∧
      ((∃ n bytes, Owns e files t i n bytes) ∨
        ∃ attempt, (s.calls i).phase = .opening attempt ∧ t.files = s.files ∧
          (t.calls i).tries = (s.calls i).tries + 1 ∧ (t.calls i).created = none) := by
  cases hstep with
  | create i attempt hphase hfree =>
    have hi := h.standing i
    unfold Standing at hi
    rw [hphase] at hi
    obtain ⟨_, hattempt, htaken⟩ := hi
    subst hattempt
    refine ⟨i, turn_of_put rfl (.inr hfree), ?_⟩
    have habsent : files (e.place (e.path i (UInt32.ofNat (s.calls i).tries))) = none := by
      cases hbefore : files _ with
      | none => rfl
      | some node =>
        rw [h.untouched _ node hbefore] at hfree
        cases hfree
    have howns := owns_of_put [] ⟨.writing 0, _, some (e.path i (UInt32.ofNat (s.calls i).tries))⟩
      rfl (lt_of_free htaken hfree) rfl habsent htaken
    refine ⟨?_, .inl ⟨_, _, howns⟩⟩
    unfold Standing
    simp only [Function.update_self, List.take_zero]
    exact ⟨Nat.zero_le _, _, howns⟩
  | clash i attempt hphase htaken =>
    have hi := h.standing i
    unfold Standing at hi
    rw [hphase] at hi
    obtain ⟨hcreated, hattempt, hbefore⟩ := hi
    refine ⟨i, turn_of_move rfl, ?_, .inr ⟨attempt, hphase, rfl, ?_, ?_⟩⟩
    · unfold Standing
      simp only [Function.update_self]
      refine ⟨hcreated, ?_, ?_⟩
      · rw [hattempt, ofNat_succ]
      · exact taken_succ hbefore (hattempt ▸ htaken)
    · simp only [Function.update_self]
    · simp only [Function.update_self, hcreated]
  | refuse i attempt hphase =>
    have hi := h.standing i
    unfold Standing at hi
    rw [hphase] at hi
    refine ⟨i, turn_of_move rfl, ?_, .inr ⟨attempt, hphase, rfl, ?_, ?_⟩⟩
    · unfold Standing
      simp only [Function.update_self]
      exact .inl hi.1
    · simp only [Function.update_self]
    · simp only [Function.update_self, hi.1]
  | write i path bytes written amount hphase hpath hfile hamount =>
    have hi := h.standing i
    unfold Standing at hi
    rw [hphase] at hi
    obtain ⟨_, n, hbefore⟩ := hi
    cases hbefore.created.symm.trans hpath
    cases hbefore.holds.symm.trans hfile
    refine ⟨i, turn_of_put hpath (.inl hpath), ?_⟩
    have howns := owns_of_put ((e.content i).take (written + amount))
      { s.calls i with phase := .writing (written + amount) }
      hbefore.tries hbefore.range hbefore.created hbefore.absent hbefore.taken
    rw [← overwrite_take hamount] at howns
    refine ⟨?_, .inl ⟨_, _, howns⟩⟩
    unfold Standing
    simp only [Function.update_self]
    rw [overwrite_take hamount] at howns ⊢
    exact ⟨hamount, n, howns⟩
  | finish i hphase =>
    have hi := h.standing i
    unfold Standing at hi
    rw [hphase] at hi
    obtain ⟨_, n, hbefore⟩ := hi
    rw [List.take_length] at hbefore
    have howns := owns_of_move .returned hbefore
    refine ⟨i, turn_of_move rfl, ?_, .inl ⟨n, _, howns⟩⟩
    unfold Standing
    simp only [Function.update_self]
    exact ⟨n, howns⟩
  | fail i written hphase =>
    have hi := h.standing i
    unfold Standing at hi
    rw [hphase] at hi
    obtain ⟨_, n, hbefore⟩ := hi
    have howns := owns_of_move .failed hbefore
    refine ⟨i, turn_of_move rfl, ?_, .inl ⟨n, _, howns⟩⟩
    unfold Standing
    simp only [Function.update_self]
    exact .inr ⟨n, _, howns⟩

end Steps

/-! ### Attempts -/

section Attempts
variable {ι D : Type} {e : Setting ι D} {files : D × List Char → Option (Node Bytes)}
  {s t : State ι D} {i j : ι}

theorem ofNat_injOn {a b : Nat} (ha : a < 2 ^ 32) (hb : b < 2 ^ 32)
    (h : UInt32.ofNat a = UInt32.ofNat b) : a = b := by
  have hnat := congrArg UInt32.toNat h
  rwa [UInt32.toNat_ofNat_of_lt' ha, UInt32.toNat_ofNat_of_lt' hb] at hnat

/-- The names that were taken are files in the way. -/
theorem le_clashing {n : Nat} (h : Taken e s i n) (hn : n ≤ 2 ^ 32)
    (hown : ∀ k < n, ∀ path, (s.calls i).created = some path →
      e.place (e.path i (UInt32.ofNat k)) ≠ e.place path) :
    (n : ℕ∞) ≤ (e.clashing s i).encard := by
  have hinj : Set.InjOn (fun k => e.place (e.path i (UInt32.ofNat k))) (Finset.range n) := by
    intro a ha b hb heq
    have ha := Finset.mem_range.mp ha
    have hb := Finset.mem_range.mp hb
    exact ofNat_injOn (ha.trans_le hn) (hb.trans_le hn) (place_injective heq)
  have hsub : Set.image (fun k => e.place (e.path i (UInt32.ofNat k))) (Finset.range n) ⊆
      e.clashing s i := by
    intro p hp
    obtain ⟨k, hk, rfl⟩ := hp
    have hk := Finset.mem_range.mp hk
    exact ⟨⟨_, rfl⟩, h k hk, hown k hk⟩
  calc (n : ℕ∞) = (Finset.range n : Set ℕ).encard := by
        rw [Set.encard_coe_eq_coe_finsetCard, Finset.card_range]
    _ = (Set.image (fun k => e.place (e.path i (UInt32.ofNat k))) (Finset.range n)).encard :=
        hinj.encard_image.symm
    _ ≤ (e.clashing s i).encard := Set.encard_le_encard hsub

/-- There are no more names than the counter has values. -/
theorem clashing_le (s : State ι D) (i : ι) : (e.clashing s i).encard ≤ ((2 ^ 32 : Nat) : ℕ∞) := by
  have hsub : e.clashing s i ⊆
      Set.image (fun k => e.place (e.path i (UInt32.ofNat k))) (Finset.range (2 ^ 32)) := by
    intro p hp
    obtain ⟨⟨attempt, rfl⟩, _⟩ := hp
    exact ⟨attempt.toNat, Finset.mem_coe.mpr (Finset.mem_range.mpr attempt.toNat_lt), by simp⟩
  calc (e.clashing s i).encard
      ≤ (Set.image (fun k => e.place (e.path i (UInt32.ofNat k))) (Finset.range (2 ^ 32))).encard :=
        Set.encard_le_encard hsub
    _ ≤ (Finset.range (2 ^ 32) : Set ℕ).encard := Set.encard_image_le _ _
    _ = ((2 ^ 32 : Nat) : ℕ∞) := by
        rw [Set.encard_coe_eq_coe_finsetCard, Finset.card_range]

theorem clashing_mono (hgrows : ∀ p, s.files p ≠ none → t.files p ≠ none)
    (hcreated : (t.calls j).created = (s.calls j).created) :
    e.clashing s j ⊆ e.clashing t j := by
  intro p hp
  obtain ⟨hname, htaken, hown⟩ := hp
  refine ⟨hname, hgrows p htaken, ?_⟩
  intro path hpath
  exact hown path (hcreated.symm.trans hpath)

/-- Whoever has made its file has tried no name after it. -/
theorem Owns.frugal {n : Nat} {bytes : Bytes} (h : Owns e files s i n bytes) :
    ((s.calls i).tries : ℕ∞) ≤ (e.clashing s i).encard + 1 := by
  have hle : (n : ℕ∞) ≤ (e.clashing s i).encard := by
    refine le_clashing h.taken h.range.le ?_
    intro k hk path hpath heq
    cases h.created.symm.trans hpath
    have := ofNat_injOn (hk.trans h.range) h.range (place_injective heq)
    omega
  rw [h.tries, Nat.cast_add, Nat.cast_one]
  exact add_le_add_left hle 1

/-- Whoever has a name left has not come to the end of the counter. -/
theorem lt_of_namesLeft {n : Nat} (h : Taken e s i n) {k : UInt32}
    (hfree : s.files (e.place (e.path i k)) = none) : n < 2 ^ 32 := by
  by_contra hge
  have hlt : k.toNat < n := k.toNat_lt.trans_le (not_lt.mp hge)
  have htaken := h k.toNat hlt
  rw [UInt32.ofNat_toNat] at htaken
  exact htaken hfree

theorem frugal_turn (h : e.Frugal s) (hturn : Turn e s t i)
    (hi : ((t.calls i).tries : ℕ∞) ≤ (e.clashing t i).encard + 1) : e.Frugal t := by
  intro j
  by_cases hj : j = i
  · rw [hj]
    exact hi
  · rw [hturn.others j hj]
    have hsub := clashing_mono (e := e) hturn.grows (congrArg Call.created (hturn.others j hj))
    exact (h j).trans (add_le_add_left (Set.encard_le_encard hsub) 1)

end Attempts

/-! ### Every run -/

section Runs
variable {ι D : Type} {e : Setting ι D} {files : D × List Char → Option (Node Bytes)}
  {s t : State ι D}

theorem inv_start : Inv e files (start files : State ι D) where
  untouched _ _ h := h
  standing i := by
    refine ⟨rfl, rfl, ?_⟩
    intro k hk
    exact absurd hk (Nat.not_lt_zero k)
  apart i j a b ha _ _ := by cases ha

theorem kept_of_inv (h : Inv e files s) : e.Kept files s := by
  constructor
  · intro i j path hi hj
    exact h.apart i j path path hi.2 hj.2 rfl
  · intro i path hi
    have hstanding := h.standing i
    unfold Standing at hstanding
    rw [hi.1] at hstanding
    obtain ⟨n, howns⟩ := hstanding
    exact (howns.holds_of_created hi.2).2
  · exact h.untouched

theorem not_namesLeft_start (i : ι) (h : ∀ k, files (e.place (e.path i k)) ≠ none) :
    ¬ e.NamesLeft (start files) := by
  intro hleft
  obtain ⟨k, hfree⟩ := hleft i 0 rfl
  exact h k hfree

variable [DecidableEq ι] [DecidableEq D]

theorem inv_step (h : Inv e files s) (hstep : e.Step s t) : Inv e files t := by
  obtain ⟨i, hturn, hi, _⟩ := standing_step h hstep
  exact inv_turn h hturn hi

theorem inv_of_reached (h : e.Reached files s) : Inv e files s := by
  induction h with
  | refl => exact inv_start
  | tail _ hstep ih => exact inv_step ih hstep

/-- While every call that looks for a name has one left, a step tries no name twice. -/
theorem frugal_step (h : Inv e files s) (hfrugal : e.Frugal s) (hleft : e.NamesLeft s)
    (hstep : e.Step s t) : e.Frugal t := by
  obtain ⟨i, hturn, _, howns | hlooking⟩ := standing_step h hstep
  · obtain ⟨n, bytes, howns⟩ := howns
    exact frugal_turn hfrugal hturn howns.frugal
  · obtain ⟨attempt, hphase, hfiles, htries, hcreated⟩ := hlooking
    obtain ⟨k, hfree⟩ := hleft i attempt hphase
    have hi := h.standing i
    unfold Standing at hi
    rw [hphase] at hi
    obtain ⟨_, _, htaken⟩ := hi
    apply frugal_turn hfrugal hturn
    rw [htries, Nat.cast_add, Nat.cast_one]
    refine add_le_add_left (le_clashing ?_ (lt_of_namesLeft htaken hfree).le ?_) 1
    · exact taken_mono hturn.grows htaken
    · intro k _ path hpath
      rw [hcreated] at hpath
      cases hpath

/-- The states of runs in which, before each step, every call that looks for a name has
one left. -/
def Setting.ReachedWithNames (e : Setting ι D) (files : D × List Char → Option (Node Bytes))
    (s : State ι D) : Prop :=
  Relation.ReflTransGen (fun a b => e.NamesLeft a ∧ e.Step a b) (start files) s

theorem inv_frugal_of_reached (h : e.ReachedWithNames files s) :
    Inv e files s ∧ e.Frugal s := by
  induction h with
  | refl => exact ⟨inv_start, fun i => Nat.cast_zero.le.trans bot_le⟩
  | tail _ hstep ih =>
    obtain ⟨hinv, hfrugal⟩ := ih
    exact ⟨inv_step hinv hstep.2, frugal_step hinv hfrugal hstep.1 hstep.2⟩

/-- With every name taken a call goes on for as long as it is let. -/
theorem clash_on {i : ι} {attempt : UInt32} (hphase : (s.calls i).phase = .opening attempt)
    (htaken : ∀ k, s.files (e.place (e.path i k)) ≠ none) (n : Nat) :
    ∃ t, Relation.ReflTransGen e.Step s t ∧ t.files = s.files ∧
      (∃ attempt, (t.calls i).phase = .opening attempt) ∧
      (t.calls i).tries = (s.calls i).tries + n := by
  induction n with
  | zero => exact ⟨s, .refl, rfl, ⟨attempt, hphase⟩, rfl⟩
  | succ n ih =>
    obtain ⟨t, hrun, hfiles, ⟨last, hlast⟩, htries⟩ := ih
    have hclash := Setting.Step.clash (e := e) i last hlast (hfiles ▸ htaken last)
    refine ⟨_, hrun.tail hclash, hfiles, ⟨last + 1, ?_⟩, ?_⟩
    · simp only [Function.update_self]
    · simp only [Function.update_self, htries]
      rfl

/-- A call all of whose names are taken tries more names than there are. -/
theorem not_frugal_of_exhausted (h : ¬ e.NamesLeft s) :
    ∃ t, Relation.ReflTransGen e.Step s t ∧ ¬ e.Frugal t := by
  unfold Setting.NamesLeft at h
  push Not at h
  obtain ⟨i, attempt, hphase, htaken⟩ := h
  obtain ⟨t, hrun, _, _, htries⟩ := clash_on hphase htaken (2 ^ 32 + 2)
  refine ⟨t, hrun, ?_⟩
  intro hfrugal
  have hle : ((t.calls i).tries : ℕ∞) ≤ ((2 ^ 32 + 1 : Nat) : ℕ∞) :=
    (hfrugal i).trans (add_le_add_left (clashing_le t i) 1)
  rw [htries, Nat.cast_le] at hle
  omega

/-- Receipts are never overwritten, in any order of any number of calls, and a run keeps each
call's attempts to one more than the files in its way exactly as far as every call that
still looks for a name has one that is not taken. -/
theorem receipts_written_once (e : Setting ι D) (files : D × List Char → Option (Node Bytes)) :
    (∀ s, e.Reached files s → e.Kept files s) ∧
      (∀ s, e.ReachedWithNames files s → e.Frugal s) ∧
      ∀ s, e.Reached files s → ¬ e.NamesLeft s →
        ∃ t, Relation.ReflTransGen e.Step s t ∧ ¬ e.Frugal t := by
  refine ⟨?_, ?_, ?_⟩
  · intro s h
    exact kept_of_inv (inv_of_reached h)
  · intro s h
    exact (inv_frugal_of_reached h).2
  · intro s _ hleft
    exact not_frugal_of_exhausted hleft

/-! ### A directory that is full -/

/-- The digest of the letter a. -/
def sampleDigest : Vector UInt8 32 :=
  #v[23, 118, 47, 221, 217, 105, 164, 83, 146, 93, 101, 113, 122, 195, 238, 162,
    19, 32, 182, 107, 84, 52, 47, 222, 21, 18, 141, 108, 175, 33, 33, 95]

/-- One call, and no way into the directory but its path. -/
def sampleSetting : Setting Unit (List Char) where
  blake3 bytes := if bytes = utf8 "a" then sampleDigest else Vector.replicate 32 0
  dir := "receipts"
  locate := id
  requests _ := ⟨"20250101_000000", none, "a"⟩

/-- A file under every name that the call can try, and nothing else. -/
def fullDirectory : List Char × List Char → Option (Node Bytes) := fun p =>
  if p ∈ (List.range (2 ^ 32)).map fun k =>
    sampleSetting.place (sampleSetting.path () (UInt32.ofNat k)) then some (.file []) else none

theorem fullDirectory_taken (k : UInt32) :
    fullDirectory (sampleSetting.place (sampleSetting.path () k)) = some (.file []) := by
  apply if_pos
  apply List.mem_map.mpr
  refine ⟨k.toNat, List.mem_range.mpr k.toNat_lt, ?_⟩
  rw [UInt32.ofNat_toNat]

theorem fullDirectory_not_frugal :
    ¬ ∀ s, sampleSetting.Reached fullDirectory s →
      sampleSetting.Kept fullDirectory s ∧ sampleSetting.Frugal s := by
  intro h
  have hleft : ¬ sampleSetting.NamesLeft (start fullDirectory) := by
    apply not_namesLeft_start ()
    intro k
    rw [fullDirectory_taken k]
    exact Option.some_ne_none _
  obtain ⟨t, hrun, hfrugal⟩ := not_frugal_of_exhausted hleft
  exact hfrugal (h t hrun).2

end Runs

end Attest.Storage.Writers
