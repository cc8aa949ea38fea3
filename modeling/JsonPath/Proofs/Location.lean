import JsonPath.Proofs.PathText
import JsonPath.Proofs.Trace

/-! Locations in a document and the paths that are recorded for them. A recorded path is the text of
its location: it reads back as the steps to the value, and reading the document by it finds the value
again. -/
namespace JsonPath

mutual

/-- Whether every array in a value has fewer than `2 ^ 63` elements. -/
def Json.addressable : Json → Bool
  | .array es => decide (es.length < 9223372036854775808) && Json.allAddressable es
  | .object ms => Json.membersAddressable ms
  | _ => true

def Json.allAddressable : List Json → Bool
  | [] => true
  | v :: vs => v.addressable && Json.allAddressable vs

def Json.membersAddressable : List (String × Json) → Bool
  | [] => true
  | (_, v) :: ms => v.addressable && Json.membersAddressable ms

end

/-- A step from a value to one that it contains. -/
inductive Step where
  | member (name : String)
  | element (place : Nat)
  deriving DecidableEq, Repr

namespace Step

def value? (v : Json) : Step → Option Json
  | member name => v.member? name
  | element place => v.element? place

/-- How a step is recorded. -/
def text : Step → String
  | member name => Path.propertyText name
  | element place => Path.indexText place

def parent : Step → Parent
  | member name => .property name
  | element place => .element place

def segment : Step → Segment
  | member name => .property name
  | element place => .index (.ofNat place)

/-- Places have to fit signed 64-bit integers to be written as positions. -/
def Fits : Step → Prop
  | member _ => True
  | element place => place < 9223372036854775808

end Step

/-- The steps from the top of a document to a value in it. -/
abbrev Location := List Step

/-- The value at a location. -/
def Json.at? (v : Json) : Location → Option Json
  | [] => some v
  | t :: l => (t.value? v).bind (·.at? l)

/-- The step that a segment means in a value: positions count from either end. -/
inductive Segment.Means (v : Json) : Segment → Step → Prop where
  | property (name : String) : Means v (.property name) (.member name)
  | index {i : Int64} {place : Nat}
      (hp : (place : Int) = Collection.effective i.toInt v.elements.length) :
    Means v (.index i) (.element place)

/-- The location to which segments lead from a value, and the value there. -/
inductive Visits : Json → List Segment → Location → Json → Prop where
  | nil (v : Json) : Visits v [] [] v
  | cons {v w u : Json} {s : Segment} {ss : List Segment} {t : Step} {l : Location}
      (hs : s.Means v t) (ht : t.value? v = some w) (hl : Visits w ss l u) :
    Visits v (s :: ss) (t :: l) u

namespace Json

theorem addressable_of_mem {es : List Json} (h : allAddressable es = true) {v : Json}
    (hv : v ∈ es) : v.addressable = true := by
  induction es with
  | nil => cases hv
  | cons w es ih =>
    rw [allAddressable, Bool.and_eq_true] at h
    rcases List.mem_cons.mp hv with rfl | hv
    · exact h.1
    · exact ih h.2 hv

theorem addressable_of_lookup? {ms : List (String × Json)} (h : membersAddressable ms = true)
    {name : String} {v : Json} (hv : Dictionary.lookup? name ms = some v) :
    v.addressable = true := by
  unfold Dictionary.lookup? at hv
  induction ms with
  | nil => cases hv
  | cons m ms ih =>
    obtain ⟨key, w⟩ := m
    rw [membersAddressable, Bool.and_eq_true] at h
    rw [List.lookup_cons] at hv
    split at hv
    · cases hv
      exact h.1
    · exact ih h.2 hv

/-- Steps in an addressable value fit and lead to addressable values. -/
theorem addressable_step {v w : Json} (hv : v.addressable = true) {t : Step}
    (ht : t.value? v = some w) : t.Fits ∧ w.addressable = true := by
  cases t with
  | member name =>
    cases v with
    | object ms =>
      rw [addressable] at hv
      exact ⟨trivial, addressable_of_lookup? hv ht⟩
    | _ => cases ht
  | element place =>
    cases v with
    | array es =>
      rw [addressable, Bool.and_eq_true, decide_eq_true_eq] at hv
      obtain ⟨hplace, _⟩ := List.getElem?_eq_some_iff.mp ht
      simp only [elements] at hplace
      exact ⟨Nat.lt_trans hplace hv.1, addressable_of_mem hv.2 (List.mem_of_getElem? ht)⟩
    | _ => cases ht

end Json

namespace Visits

variable {v u : Json} {ss : List Segment} {l : Location}

theorem at? (h : Visits v ss l u) : v.at? l = some u := by
  induction h with
  | nil => rfl
  | cons _ ht _ ih => rw [Json.at?, ht, Option.bind_some, ih]

theorem fits (h : Visits v ss l u) (hv : v.addressable = true) : ∀ t ∈ l, t.Fits := by
  induction h with
  | nil => intro t ht; cases ht
  | cons _ ht _ ih =>
    obtain ⟨hfits, hw⟩ := Json.addressable_step hv ht
    exact List.forall_mem_cons.mpr ⟨hfits, ih hw⟩

end Visits

theorem Step.toInt_ofNat {place : Nat} (h : (Step.element place).Fits) :
    (Int64.ofNat place).toInt = place := Int64.toInt_ofNat_of_lt h

/-- A step means itself, once it is written as a segment. -/
theorem Step.means_segment {t : Step} (h : t.Fits) (v : Json) : t.segment.Means v t := by
  cases t with
  | member name => exact .property name
  | element place =>
    refine .index ?_
    rw [Step.toInt_ofNat h, Collection.effective, if_pos (Int.natCast_nonneg place)]

theorem Step.text_segment {t : Step} (h : t.Fits) : (Token.ofSegment t.segment).text = t.text := by
  cases t with
  | member name => rfl
  | element place =>
    simp only [Step.segment, Token.ofSegment, Token.text, Step.text, Step.toInt_ofNat h]

theorem Step.isCall_segment (t : Step) : t.segment.isCall = false := by cases t <;> rfl

theorem Step.segment_injective {t t' : Step} (ht : t.Fits) (ht' : t'.Fits)
    (h : t.segment = t'.segment) : t = t' := by
  cases t with
  | member name =>
    cases t' with
    | member name' => cases h; rfl
    | element place' => cases h
  | element place =>
    cases t' with
    | member name' => cases h
    | element place' =>
      have hi : Int64.ofNat place = Int64.ofNat place' := by simpa [Step.segment] using h
      have hplace := Step.toInt_ofNat ht
      rw [hi, Step.toInt_ofNat ht'] at hplace
      rw [Int.ofNat_inj.mp hplace]

theorem Segment.Means.unique {v : Json} {s : Segment} {t t' : Step} (h : s.Means v t)
    (h' : s.Means v t') : t = t' := by
  cases h with
  | property name => cases h'; rfl
  | index hp =>
    cases h' with
    | index hp' => rw [Int.ofNat_inj.mp (hp.trans hp'.symm)]

theorem Visits.unique {v u u' : Json} {ss : List Segment} {l l' : Location} (h : Visits v ss l u)
    (h' : Visits v ss l' u') : l = l' ∧ u = u' := by
  induction h generalizing l' with
  | nil v => cases h'; exact ⟨rfl, rfl⟩
  | @cons v w u s ss t l hmeans ht _ ih =>
    cases h' with
    | cons hmeans' ht' hl' =>
      have hstep := hmeans.unique hmeans'
      subst hstep
      have hvalue := Option.some.inj (ht.symm.trans ht')
      subst hvalue
      obtain ⟨hloc, hend⟩ := ih hl'
      rw [hloc, hend]
      exact ⟨rfl, rfl⟩

theorem Visits.normal {v u : Json} {ss : List Segment} {l : Location} (h : Visits v ss l u)
    (hl : ∀ t ∈ l, t.Fits) : Visits v (l.map Step.segment) l u := by
  induction h with
  | nil v => exact .nil v
  | @cons v w u s ss t l _ ht _ ih =>
    obtain ⟨hfits, hrest⟩ := List.forall_mem_cons.mp hl
    exact .cons (Step.means_segment hfits v) ht (ih hrest)

namespace Token

variable {r : Resolver} {e : Environment} {c d : Cursor}

theorem step_ofSegment_iff {s : Segment} (hs : s.isCall = false) :
    (ofSegment s).step r e c = .ok d ↔ ∃ t w, s.Means c.value t ∧ t.value? c.value = some w ∧
      d = ⟨c.path ++ t.text, t.parent, w⟩ := by
  rw [← leads_iff_step]
  cases s with
  | property name =>
    constructor
    · intro h
      cases h with
      | property hv => exact ⟨.member name, _, .property name, hv, rfl⟩
    · intro h
      obtain ⟨t, w, hmeans, ht, rfl⟩ := h
      cases hmeans with
      | property => exact .property ht
  | index i =>
    constructor
    · intro h
      cases h with
      | index hp hv => exact ⟨.element _, _, .index hp, hv, rfl⟩
    · intro h
      obtain ⟨t, w, hmeans, ht, rfl⟩ := h
      cases hmeans with
      | index hp => exact .index hp ht
  | call name as => cases hs

end Token

/-- The place that is reached along a location. -/
def Cursor.along (c : Cursor) (l : Location) (u : Json) : Cursor :=
  ⟨c.path ++ .join (l.map Step.text), (l.getLast?.map Step.parent).getD c.parent, u⟩

theorem Cursor.along_cons (c : Cursor) (t : Step) (w : Json) (l : Location) (u : Json) :
    c.along (t :: l) u = (⟨c.path ++ t.text, t.parent, w⟩ : Cursor).along l u := by
  simp only [Cursor.along, List.map_cons, String.join_cons, String.append_assoc,
    List.getLast?_cons, Option.map_some, Option.getD_some]
  cases l.getLast? <;> rfl

/-- Segments without calls go where they visit, and record the way in the path. -/
theorem Token.reach_ofSegments_iff {r : Resolver} {e : Environment} {c d : Cursor}
    {ss : List Segment} (hss : ∀ s ∈ ss, s.isCall = false) :
    reach r e c (ofSegments ss) = .ok d ↔ ∃ l u, Visits c.value ss l u ∧ d = c.along l u := by
  induction ss generalizing c d with
  | nil =>
    constructor
    · intro h
      cases h
      exact ⟨[], _, .nil _, by simp [Cursor.along]⟩
    · intro h
      obtain ⟨l, u, hv, rfl⟩ := h
      cases hv
      simp [Cursor.along, ofSegments]
  | cons s ss ih =>
    obtain ⟨hs, hss⟩ := List.forall_mem_cons.mp hss
    rw [ofSegments, reach_cons]
    constructor
    · intro h
      cases hstep : (ofSegment s).step r e c with
      | error err => rw [hstep] at h; cases h
      | ok a =>
        rw [hstep] at h
        obtain ⟨t, w, hmeans, ht, rfl⟩ := (step_ofSegment_iff hs).mp hstep
        obtain ⟨l, u, hl, rfl⟩ := (ih hss).mp h
        exact ⟨t :: l, u, .cons hmeans ht hl, (c.along_cons t w l u).symm⟩
    · intro h
      obtain ⟨l, u, hv, rfl⟩ := h
      cases hv with
      | cons hmeans ht hl =>
        rw [(step_ofSegment_iff hs).mpr ⟨_, _, hmeans, ht, rfl⟩, c.along_cons]
        exact (ih hss).mpr ⟨_, u, hl, rfl⟩

namespace Location

/-- The text of a location below a root symbol. -/
def text (root : Root) (l : Location) : String :=
  root.symbol.toString ++ .join (l.map Step.text)

def path (root : Root) (l : Location) : Path := ⟨root, l.map Step.segment⟩

/-- The step that led to the value at a location. -/
def parent (l : Location) : Parent := (l.getLast?.map Step.parent).getD .root

theorem isCall_path (root : Root) (l : Location) :
    ∀ s ∈ (l.path root).segments, s.isCall = false := by
  intro s hs
  obtain ⟨t, _, rfl⟩ := List.mem_map.mp hs
  exact t.isCall_segment

theorem text_path (root : Root) {l : Location} (hl : ∀ t ∈ l, t.Fits) :
    (Plan.ofPath (l.path root)).text = l.text root := by
  have hmap : (l.map Step.segment).map (fun s => (Token.ofSegment s).text) = l.map Step.text := by
    rw [List.map_map]
    exact List.map_congr_left fun t ht => Step.text_segment (hl t ht)
  simp only [Plan.text, Plan.chain_ofPath, path, Token.ofSegments_eq, List.map_cons,
    List.map_map, Function.comp_def] at hmap ⊢
  rw [hmap, String.join_cons]
  rfl

theorem parse?_text (root : Root) {l : Location} (hl : ∀ t ∈ l, t.Fits) :
    Path.parse? (l.text root) = some (l.path root) := by
  rw [← text_path root hl]
  exact Path.parse?_text _ (isCall_path root l)

theorem segments_injective {l l' : Location} (hl : ∀ t ∈ l, t.Fits) (hl' : ∀ t ∈ l', t.Fits)
    (h : l.map Step.segment = l'.map Step.segment) : l = l' := by
  induction l generalizing l' with
  | nil => exact (List.map_eq_nil_iff.mp h.symm).symm
  | cons t l ih =>
    cases l' with
    | nil => cases h
    | cons t' l' =>
      obtain ⟨ht, hl⟩ := List.forall_mem_cons.mp hl
      obtain ⟨ht', hl'⟩ := List.forall_mem_cons.mp hl'
      rw [List.map_cons, List.map_cons, List.cons.injEq] at h
      rw [Step.segment_injective ht ht' h.1, ih hl hl' h.2]

/-- Different locations have different texts, also below different symbols. -/
theorem text_injective {root root' : Root} {l l' : Location} (hl : ∀ t ∈ l, t.Fits)
    (hl' : ∀ t ∈ l', t.Fits) (h : l.text root = l'.text root') : root = root' ∧ l = l' := by
  have hparsed := congrArg Path.parse? h
  rw [parse?_text root hl, parse?_text root' hl', Option.some.injEq, path, path,
    Path.mk.injEq] at hparsed
  exact ⟨hparsed.1, segments_injective hl hl' hparsed.2⟩

/-- The hit for a value at a location. -/
def hit (root : Root) (l : Location) (u : Json) : Hit := ⟨l.text root, l.parent, u⟩

end Location

namespace Plan

variable {p : Path} {document root : Json} {c : Configuration}

theorem reach_plain_iff (hp : ∀ s ∈ p.segments, s.isCall = false) {a : Cursor} :
    (ofPath p).reach document root c = .ok a ↔
      ∃ l u, Visits document p.segments l u ∧ a = ⟨l.text p.root, l.parent, u⟩ := by
  obtain ⟨symbol, ss⟩ := p
  rw [reach, chain_ofPath]
  exact Token.reach_ofSegments_iff (c := ⟨symbol.symbol.toString, .root, document⟩) hp

/-- Without calls, only the place at the end is recorded. -/
theorem evaluate_of_reach (hp : ∀ s ∈ p.segments, s.isCall = false) {a : Cursor}
    (h : (ofPath p).reach document root c = .ok a) :
    (ofPath p).evaluate document root c = .ok ⟨⟨c, root⟩, true, [a.hit]⟩ := by
  obtain ⟨cs, hj, rfl⟩ := Token.reach_eq_ok_iff.mp h
  have hcount : p.segments.countP Segment.isCall = 0 :=
    List.countP_eq_zero.mpr fun s hs => by rw [hp s hs]; exact Bool.false_ne_true
  have hcalls : Token.callHits (start document) (ofPath p).chain cs = [] := by
    rw [← List.length_eq_zero_iff, hj.length_callHits, countP_isCall_ofPath, hcount]
  have hend : p.segments.getLast?.any Segment.isCall = false := by
    cases hlast : p.segments.getLast? with
    | none => rfl
    | some s => exact hp s (List.mem_of_getLast? hlast)
  rw [evaluate_of_journey hj, hcalls, Token.lastHit, last_isCall_ofPath, hend]
  rfl

/-- What a path without calls finds is at the location that it visits. -/
theorem evaluate_plain_iff (hp : ∀ s ∈ p.segments, s.isCall = false) {found : Context} :
    (ofPath p).evaluate document root c = .ok found ↔
      ∃ l u, Visits document p.segments l u ∧ found = ⟨⟨c, root⟩, true, [l.hit p.root u]⟩ := by
  constructor
  · intro h
    cases hr : (ofPath p).reach document root c with
    | error err => rw [evaluate_error_iff.mpr hr] at h; cases h
    | ok a =>
      rw [evaluate_of_reach hp hr] at h
      cases h
      obtain ⟨l, u, hl, rfl⟩ := (reach_plain_iff hp).mp hr
      exact ⟨l, u, hl, rfl⟩
  · intro h
    obtain ⟨l, u, hl, rfl⟩ := h
    exact evaluate_of_reach hp ((reach_plain_iff hp).mpr ⟨l, u, hl, rfl⟩)

/-- A recorded path reads back as the location of its value, and finds the same hit again. -/
theorem evaluate_compile_text {d u : Json} (hd : d.addressable = true) {ss : List Segment}
    {l : Location} (hl : Visits d ss l u) (symbol : Root) :
    (compile (l.text symbol)).bind (·.evaluate d root c) =
      .ok ⟨⟨c, root⟩, true, [l.hit symbol u]⟩ := by
  have hfits := hl.fits hd
  rw [compile, Location.parse?_text symbol hfits]
  exact (evaluate_plain_iff (l.isCall_path symbol)).mpr ⟨l, u, hl.normal hfits, rfl⟩

/-- A path without calls records one hit. Its path text reads back as the names and places that were
visited, and finds the same hit again in the same document; a run that records the same text has been
at the same location. -/
theorem recorded_path_locates {d : Json} (hd : d.addressable = true)
    (hp : ∀ s ∈ p.segments, s.isCall = false) {found : Context}
    (h : (ofPath p).evaluate d root c = .ok found) :
    ∃ (l : Location) (hit : Hit), found.hits = [hit] ∧
      Visits d p.segments l hit.value ∧ d.at? l = some hit.value ∧
      Path.parse? hit.path = some ⟨p.root, l.map Step.segment⟩ ∧
      (∀ place, .element place ∈ l → (Int64.ofNat place).toInt = place) ∧
      (∀ (root' : Json) (c' : Configuration),
        ((compile hit.path).bind (·.evaluate d root' c')).map (·.hits) = .ok [hit]) ∧
      ∀ (p' : Path) (root' : Json) (c' : Configuration) (l' : Location) (hit' : Hit),
        (∀ s ∈ p'.segments, s.isCall = false) →
        ((ofPath p').evaluate d root' c').map (·.hits) = .ok [hit'] →
        Visits d p'.segments l' hit'.value → hit'.path = hit.path →
          p'.root = p.root ∧ l' = l ∧ hit' = hit := by
  obtain ⟨l, u, hl, rfl⟩ := (evaluate_plain_iff hp).mp h
  have hfits := hl.fits hd
  refine ⟨l, l.hit p.root u, rfl, hl, hl.at?, Location.parse?_text p.root hfits, ?_, ?_, ?_⟩
  · intro place hplace
    exact Step.toInt_ofNat (hfits _ hplace)
  · intro root' c'
    have hagain : (compile (l.hit p.root u).path).bind (·.evaluate d root' c') =
        .ok ⟨⟨c', root'⟩, true, [l.hit p.root u]⟩ := evaluate_compile_text hd hl p.root
    rw [hagain]
    rfl
  · intro p' root' c' l' hit' hp' hrun hl' htext
    cases hfound : (ofPath p').evaluate d root' c' with
    | error err => rw [hfound] at hrun; cases hrun
    | ok found' =>
      rw [hfound] at hrun
      obtain ⟨l'', u', hvisits, rfl⟩ := (evaluate_plain_iff hp').mp hfound
      cases hrun
      obtain ⟨rfl, _⟩ := hvisits.unique hl'
      obtain ⟨hroot, hloc⟩ := Location.text_injective (hvisits.fits hd) hfits htext
      subst hloc
      have hvalue := Option.some.inj (hvisits.at?.symm.trans hl.at?)
      rw [hroot, hvalue]
      exact ⟨rfl, rfl, rfl⟩

/-- Quotes and brackets in a name cannot end it early: `@["a']['b"][-1]` records the place 1 below the
one name, and the name `c\` ends in its own backslash. -/
theorem recorded_path_locates_quoted :
    let p : Path := ⟨.current, [.property "a']['b", .index (-1), .property "c\\"]⟩
    let d : Json := .object [("a']['b", .array [.null, .object [("c\\", .bool true)]])]
    ∃ found hit, (ofPath p).evaluate d d .standard = .ok found ∧ found.hits = [hit] ∧
      hit.path = "@['a\\'][\\'b'][1]['c\\\\']" ∧
      Path.parse? hit.path =
        some ⟨.current, [.property "a']['b", .index 1, .property "c\\"]⟩ := by
  intro p d
  have h : (ofPath p).evaluate d d .standard = .ok ⟨⟨.standard, d⟩, true,
      [⟨"@['a\\'][\\'b'][1]['c\\\\']", .property "c\\", .bool true⟩]⟩ := by
    cbv
  have hd : d.addressable = true := by decide
  have hp : ∀ s ∈ p.segments, s.isCall = false := by simp [p, Segment.isCall]
  obtain ⟨l, hit, hhits, hvisits, _, hparse, _⟩ := recorded_path_locates hd hp h
  have hlocation : Visits d p.segments
      [.member "a']['b", .element 1, .member "c\\"] (.bool true) :=
    .cons (.property _) rfl (.cons (.index rfl) rfl (.cons (.property _) rfl (.nil _)))
  obtain ⟨rfl, _⟩ := hvisits.unique hlocation
  cases hhits
  exact ⟨_, _, h, rfl, rfl, hparse⟩

end Plan
end JsonPath
