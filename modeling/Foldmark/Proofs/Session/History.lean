import Foldmark.Session
import Mathlib.Data.Finset.Card

/-!
# Sessions and their history

A session keeps one edition a document. Which one it is can be told from the requests alone: of
the editions that were offered since the document was last closed it is the last one with the
highest version (`Newest`). One request keeps this tie between a session and what was offered to
it (`Tracks.step`), so it holds after every row of requests.
-/
namespace Foldmark

namespace Session

/-! ## Entries after one change -/

lemma lookup_others (s : Session) (id id' : String) :
    (s.others id).lookup id' = if id' = id then none else s.get? id' := by
  simp only [others, get?]
  induction s.entries with
  | nil => simp
  | cons entry entries ih => grind

lemma get?_insert (s : Session) (id id' : String) (e : Edition) :
    (s.insert id e).get? id' = if id' = id then some e else s.get? id' := by
  have hlookup := s.lookup_others id id'
  by_cases h : id' = id
  · simp [get?, insert, h]
  · have hb : (id' == id) = false := by simpa using h
    simpa [get?, insert, List.lookup_cons, hb, h] using hlookup

lemma get?_erase (s : Session) (id id' : String) :
    (s.erase id).get? id' = if id' = id then none else s.get? id' :=
  s.lookup_others id id'

lemma mem_ids_iff (s : Session) (id : String) :
    id ∈ s.entries.map Prod.fst ↔ s.get? id ≠ none := by
  simp only [get?]
  induction s.entries with
  | nil => simp
  | cons entry entries ih => grind

/-- No identifier occurs twice, so a session has as many entries as open documents. -/
lemma size_eq_card (s : Session) : s.size = (s.entries.map Prod.fst).toFinset.card := by
  rw [List.toFinset_card_of_nodup s.distinct, List.length_map]
  rfl

/-! ## Requests -/

inductive Request where
  | replace (id : String) (version : Nat) (outline : Outline)
  | close (id : String)
  /-- Any of the questions `outline?`, `version?` and `directive`. -/
  | query (id : String)

/-- The session after a request. -/
def step (s : Session) : Request → Session
  | .replace id version outline => (s.replace id version outline).2
  | .close id => (s.close id).2
  | .query _ => s

/-- The session after a row of requests, with no document open before. -/
def after (requests : List Request) : Session :=
  requests.foldl step empty

/-- What is on offer for a document after one more request: a replacement adds an edition, whether
it is taken or not, and closing the document drops all of them. -/
def Request.record (id : String) (offered : List Edition) : Request → List Edition
  | replace id' version outline => if id' = id then offered ++ [⟨version, outline⟩] else offered
  | close id' => if id' = id then [] else offered
  | query _ => offered

/-- The editions that were offered for a document since it was last closed, in order. -/
def offered (id : String) (requests : List Request) : List Edition :=
  requests.foldl (Request.record id) []

/-- The last of the editions with the highest version. -/
def Newest (editions : List Edition) (e : Edition) : Prop :=
  ∃ earlier later, editions = earlier ++ e :: later ∧
    (∀ x ∈ earlier, x.version ≤ e.version) ∧ ∀ x ∈ later, x.version < e.version

namespace Newest

variable {editions : List Edition} {e : Edition}

lemma version_le (h : Newest editions e) : ∀ x ∈ editions, x.version ≤ e.version := by
  obtain ⟨earlier, later, rfl, hearlier, hlater⟩ := h
  intro x hx
  rcases List.mem_append.mp hx with hx | hx
  · exact hearlier x hx
  · rcases List.mem_cons.mp hx with rfl | hx
    · exact le_rfl
    · exact (hlater x hx).le

lemma mem (h : Newest editions e) : e ∈ editions := by
  obtain ⟨earlier, later, rfl, _, _⟩ := h
  simp

/-- An edition that is older stays behind the newest one. -/
lemma append_older (h : Newest editions e) {x : Edition} (hx : x.version < e.version) :
    Newest (editions ++ [x]) e := by
  obtain ⟨earlier, later, rfl, hearlier, hlater⟩ := h
  refine ⟨earlier, later ++ [x], by simp, hearlier, fun y hy => ?_⟩
  rcases List.mem_append.mp hy with hy | hy
  · exact hlater y hy
  · rwa [List.mem_singleton.mp hy]

lemma of_le {x : Edition} (h : ∀ y ∈ editions, y.version ≤ x.version) :
    Newest (editions ++ [x]) x :=
  ⟨editions, [], rfl, h, by simp⟩

end Newest

/-! ## What a session keeps of its history -/

/-- The current edition of a document is the newest of those that were offered. -/
def Current (editions : List Edition) : Option Edition → Prop
  | none => editions = []
  | some e => Newest editions e

lemma Current.eq_none_iff {editions : List Edition} {current : Option Edition}
    (h : Current editions current) : current = none ↔ editions = [] := by
  cases current with
  | none => exact ⟨fun _ => h, fun _ => rfl⟩
  | some e => simpa using List.ne_nil_of_mem h.mem

/-- Every document of the session is current. -/
def Tracks (s : Session) (editions : String → List Edition) : Prop :=
  ∀ id, Current (editions id) (s.get? id)

namespace Tracks

variable {s : Session} {editions : String → List Edition}

/-- An edition is accepted if none that was offered is newer. -/
lemma accepts_iff (h : s.Tracks editions) (id : String) (version : Nat) :
    s.accepts id version = true ↔ ∀ e ∈ editions id, e.version ≤ version := by
  have hid := h id
  unfold accepts
  cases hcurrent : s.get? id with
  | none =>
    rw [hcurrent] at hid
    simp [show editions id = [] from hid]
  | some current =>
    rw [hcurrent] at hid
    have hle : ∀ e ∈ editions id, e.version ≤ current.version := hid.version_le
    simp only [decide_eq_true_eq]
    exact ⟨fun hv e he => (hle e he).trans hv, fun hall => hall current hid.mem⟩

lemma replace (h : s.Tracks editions) (id : String) (version : Nat) (outline : Outline) :
    (s.replace id version outline).2.Tracks
      fun id' => (Request.replace id version outline).record id' (editions id') := by
  intro id'
  have hid := h id'
  have haccepts := h.accepts_iff id version
  by_cases ha : s.accepts id version = true
  · simp only [Session.replace, ha, if_true, get?_insert, Request.record]
    by_cases he : id' = id
    · subst he
      simpa [Current] using Newest.of_le (haccepts.mp ha)
    · simpa [he, Ne.symm he] using hid
  · simp only [Session.replace, ha, Request.record]
    by_cases he : id' = id
    · subst he
      -- a refused edition is older than the current one, which therefore exists
      cases hcurrent : s.get? id' with
      | none => simp [accepts, hcurrent] at ha
      | some current =>
        have hlt : version < current.version := by simpa [accepts, hcurrent] using ha
        rw [hcurrent] at hid
        simpa [Current, hcurrent] using Newest.append_older hid hlt
    · simpa [Ne.symm he] using hid

lemma close (h : s.Tracks editions) (id : String) :
    (s.close id).2.Tracks fun id' => (Request.close id).record id' (editions id') := by
  intro id'
  simp only [Session.close, get?_erase, Request.record]
  by_cases he : id' = id
  · simp [he, Current]
  · simpa [he, Ne.symm he] using h id'

/-- One request. -/
lemma step (h : s.Tracks editions) (request : Request) :
    (s.step request).Tracks fun id => request.record id (editions id) := by
  cases request with
  | replace id version outline => exact h.replace id version outline
  | close id => exact h.close id
  | query id => exact h

end Tracks

/-- A whole row of requests. -/
theorem after_tracks (requests : List Request) :
    (after requests).Tracks fun id => offered id requests := by
  induction requests using List.reverseRecOn with
  | nil =>
    intro id
    rfl
  | append_singleton requests request ih =>
    simpa only [after, offered, List.foldl_concat] using ih.step request

/-- After any requests the current edition of a document is the newest of those that were offered
since it was last closed, and all answers are read off it. A document with no such edition is not
open. -/
theorem after_newest (requests : List Request) (id : String) :
    (offered id requests = [] →
      (after requests).outline? id = none ∧ (after requests).version? id = none ∧
        ∀ line, (after requests).directive id line = .noFold) ∧
    (offered id requests ≠ [] → ∃ e, Newest (offered id requests) e ∧
      (after requests).outline? id = some e.outline ∧
      (after requests).version? id = some e.version ∧
        ∀ line, (after requests).directive id line = e.outline.directive line) ∧
    (∀ version outline, ((after requests).replace id version outline).1 = true ↔
      ∀ e ∈ offered id requests, e.version ≤ version) ∧
    (((after requests).close id).1 = true ↔ offered id requests ≠ []) ∧
    ∃ ids : Finset String, (∀ id, id ∈ ids ↔ offered id requests ≠ []) ∧
      (after requests).size = ids.card := by
  have htracks := after_tracks requests
  have hnone : ∀ id, (after requests).get? id = none ↔ offered id requests = [] :=
    fun id => (htracks id).eq_none_iff
  refine ⟨fun hempty => ?_, fun hne => ?_, fun version outline => ?_, ?_, ?_⟩
  · have hget := (hnone id).mpr hempty
    simp [outline?, version?, directive, hget]
  · obtain ⟨e, he⟩ := Option.ne_none_iff_exists'.mp (mt (hnone id).mp hne)
    have hcurrent := htracks id
    rw [he] at hcurrent
    exact ⟨e, hcurrent, by simp [outline?, he], by simp [version?, he],
      by simp [directive, outline?, he]⟩
  · rw [← htracks.accepts_iff id version]
    unfold Session.replace
    split <;> simp_all
  · simp [Session.close, Option.isSome_iff_ne_none, hnone]
  · refine ⟨_, fun id => ?_, size_eq_card _⟩
    rw [List.mem_toFinset, mem_ids_iff, Ne, hnone]

end Session

end Foldmark
