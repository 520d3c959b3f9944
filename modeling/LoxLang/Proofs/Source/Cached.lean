import LoxLang.Source.Cache
import LoxLang.Source.Run

namespace LoxLang

def Reading.source? : Reading → Option Source
  | unread _ => none
  | parsed shared => some shared.source

namespace Cache
set_option autoImplicit true

/-- What is asked of a cache and of the sources it has handed out, numbered from 0 in the order in
which they were read. A source is executed on a machine of its own. -/
inductive Request where
  | read (input : Except Foreign Text)
  | clear
  | execute (number : Nat) (o : Options)

/-- What comes of a request: a source with the faults that are reported and the failure that is
returned, or the output and the ending of a run. -/
inductive Answer where
  | reading (source? : Option Source) (reported : List Diagnostic) (error? : Option Failure)
  | cleared
  | ran (output : Array Text) (ending : Ending)
  | missing

def Answer.ofReport (r : Report) : Answer := .ran r.machine.output r.ending

/-- A cache and the sources that were read through it. -/
structure Client where
  cache : Cache
  sources : List Source

def Client.answer (hash : Text → UInt64) (d : Client) : Request → Answer × Client
  | .read input =>
    let (r, cache) := d.cache.read hash input
    (.reading r.source? r.diagnostics r.error?, ⟨cache, d.sources ++ r.source?.toList⟩)
  | .clear => (.cleared, { d with cache := d.cache.clear })
  | .execute number o =>
    match d.sources[number]? with
    | some s => (.ofReport (s.execute o o.machine), d)
    | none => (.missing, d)

def Client.answers (hash : Text → UInt64) : Client → List Request → List Answer
  | _, [] => []
  | d, q :: qs => (d.answer hash q).1 :: answers hash (d.answer hash q).2 qs

def unreadable (e : Foreign) : Failure :=
  ((Failure.of .readInput).wrap (some (.foreign e none))).attach [Log.text "source" "reader"]

/-- Answers a request without a cache: the texts read so far are all that is kept, each reading
parses its text, and each execution runs its text from scratch. -/
def plainAnswer (texts : List Text) : Request → Answer × List Text
  | .read (.error e) => (.reading none [] (some (unreadable e)), texts)
  | .read (.ok t) =>
    (.reading (some (.ofText t)) (Source.ofText t).diagnostics (Source.ofText t).error?,
      texts ++ [t])
  | .clear => (.cleared, texts)
  | .execute number o =>
    match texts[number]? with
    | some t => (.ofReport (Source.run o t o.machine), texts)
    | none => (.missing, texts)

def plainAnswers : List Text → List Request → List Answer
  | _, [] => []
  | texts, q :: qs => (plainAnswer texts q).1 :: plainAnswers (plainAnswer texts q).2 qs

/-- Every source that is kept is the one that parsing its text gives. -/
def Sound (c : Cache) : Prop := ∀ e ∈ c.entries, e.2.source = .ofText e.2.source.text

theorem empty_sound : Sound empty := fun _ he => absurd he List.not_mem_nil

theorem Sound.lookup {c : Cache} (h : c.Sound) (hl : c.entries.lookup key = some shared) :
    shared.source = .ofText shared.source.text := by
  obtain ⟨before, after, he, -⟩ := List.lookup_eq_some_iff.1 hl
  exact h (key, shared) (by simp [he])

/-- Whether its entry is found, taken by another text or new, a text is answered by the source that
parsing it gives. -/
theorem Sound.parse {c : Cache} (h : c.Sound) (hash : Text → UInt64) (t : Text) :
    (c.parse hash t).1.source = .ofText t ∧ (c.parse hash t).2.Sound := by
  unfold Cache.parse
  split
  · rename_i shared hl
    split
    · rename_i ht
      exact ⟨ht ▸ h.lookup hl, h⟩
    · exact ⟨rfl, h⟩
  · exact ⟨rfl, List.forall_mem_cons.2 ⟨rfl, h⟩⟩

/-- A source that parsing a text gives, executed, shows what running the text shows. -/
theorem ofReport_execute (o : Options) (t : Text) (m : Machine) :
    Answer.ofReport ((Source.ofText t).execute o m) = .ofReport (Source.run o t m) := by
  rw [Source.run]
  dsimp only
  cases he : (Source.ofText t).error? with
  | none => rfl
  | some e =>
    rw [Source.execute, he]
    rfl

/-- The client has read these texts, and nothing of its cache could mislead it. -/
structure Client.Holds (d : Client) (texts : List Text) : Prop where
  sound : d.cache.Sound
  sources : d.sources = texts.map Source.ofText

theorem Client.Holds.answer {d : Client} (h : d.Holds texts) (hash : Text → UInt64) (q : Request) :
    (d.answer hash q).1 = (plainAnswer texts q).1 ∧
      (d.answer hash q).2.Holds (plainAnswer texts q).2 := by
  obtain ⟨hsound, hsources⟩ := h
  cases q with
  | read input =>
    cases input with
    | error e =>
      refine ⟨rfl, hsound, ?_⟩
      change d.sources ++ [] = texts.map Source.ofText
      rw [List.append_nil, hsources]
    | ok t =>
      obtain ⟨hs, hsound'⟩ := hsound.parse hash t
      refine ⟨?_, hsound', ?_⟩
      · change Answer.reading (some (d.cache.parse hash t).1.source)
            (d.cache.parse hash t).1.source.diagnostics (d.cache.parse hash t).1.source.error? =
          .reading (some (.ofText t)) (Source.ofText t).diagnostics (Source.ofText t).error?
        rw [hs]
      · change d.sources ++ [(d.cache.parse hash t).1.source] = (texts ++ [t]).map Source.ofText
        rw [hs, hsources, List.map_append]
        rfl
  | clear => exact ⟨rfl, empty_sound, hsources⟩
  | execute number o =>
    have hnumber : d.sources[number]? = texts[number]?.map Source.ofText := by
      rw [hsources, List.getElem?_map]
    simp only [Client.answer, plainAnswer, hnumber]
    cases texts[number]? with
    | none => exact ⟨rfl, hsound, hsources⟩
    | some t => exact ⟨ofReport_execute o t o.machine, hsound, hsources⟩

/-- Any requests are answered through the cache as they are answered without it, whatever the hash
and whatever collides. -/
theorem answers_eq_plain (hash : Text → UInt64) (qs : List Request) :
    Client.answers hash ⟨empty, []⟩ qs = plainAnswers [] qs := by
  have hall (qs : List Request) : ∀ (d : Client) (texts : List Text), d.Holds texts →
      d.answers hash qs = plainAnswers texts qs := by
    induction qs with
    | nil => exact fun _ _ _ => rfl
    | cons q qs ih =>
      intro d texts h
      obtain ⟨ha, hd⟩ := h.answer hash q
      rw [Client.answers, plainAnswers, ha, ih _ _ hd]
  exact hall qs _ _ ⟨empty_sound, rfl⟩

end Cache

end LoxLang
