import Munch.Proofs.Attaching

/-!
# What a source delivers is all that counts

Sources may present the same input in different ways: as a text, behind a reader with a slot for one
rune, or as a list of runes that knows its end or lets it be found. A scan depends on the runes that
are delivered, on how they end, and on the name of the source.

* `Source.Delivers s R stop`: asked for runes again and again, `s` delivers `R` and then stops for
  the reason `stop`.

Results:
* `Source.delivers_iff`: what a source delivers are its pending runes.
* **`scan_depends_on_delivery`**: nobody can tell apart two sources of one name that deliver the
  same.
-/

namespace Munch

open Lexer

variable {α η : Type}

/-! ## What a source delivers -/

namespace Source

/-- The source delivers the runes one after the other, and then the reason why there are no more. -/
def Delivers (s : Source) : List Rune → Stop → Prop
  | [], stop => ∃ s', s.next = (.error stop, s')
  | r :: rest, stop => ∃ s', s.next = (.ok r, s') ∧ s'.Delivers rest stop

/-- **What a source delivers are its pending runes.** -/
theorem delivers_iff {s : Source} {R : List Rune} {stop : Stop} :
    s.Delivers R stop ↔ s.pending = R ∧ s.reason = stop := by
  induction R generalizing s with
  | nil =>
    constructor
    · rintro ⟨s', hnext⟩
      obtain ⟨hpending, hstop, -⟩ := next_error hnext
      exact ⟨hpending, hstop.symm⟩
    · rintro ⟨hpending, hreason⟩
      rcases hnext : s.next with ⟨stop' | r, s'⟩
      · obtain ⟨-, rfl, -⟩ := next_error hnext
        exact ⟨s', hreason ▸ hnext⟩
      · cases hpending.symm.trans (next_ok hnext).1
  | cons r R ih =>
    constructor
    · rintro ⟨s', hnext, hrest⟩
      obtain ⟨hpending, hreason⟩ := next_ok hnext
      obtain ⟨hrest, hstop⟩ := ih.mp hrest
      exact ⟨by rw [hpending, hrest], hreason.symm.trans hstop⟩
    · rintro ⟨hpending, hreason⟩
      rcases hnext : s.next with ⟨stop' | r', s'⟩
      · cases hpending.symm.trans (next_error hnext).1
      · obtain ⟨hcons, hsame⟩ := next_ok hnext
        cases hcons.symm.trans hpending
        exact ⟨s', hnext, ih.mpr ⟨rfl, hsame.trans hreason⟩⟩

end Source

/-! ## Scans of sources that deliver the same -/

/-- Being alike but for the presentation of the input. -/
def Likeness.presented (η : Type) : Likeness η :=
  { Likeness.same η with input := fun a b => Option.Rel Window.Presented a.1 b.1 ∧ a.2 = b.2 }

theorem Likeness.faithful_presented (η : Type) :
    (Likeness.presented η).Faithful Window.Presented where
  alike := Window.readAlike_presented
  input := Iff.rfl
  name := rfl
  handler := rfl

/-- **A scan depends only on what is delivered, and not on how.** Whatever happened to the lexer
`lx`, and whichever matcher it uses: if two sources of one name deliver the same runes and end
alike, with the end of the input or with the same read error, then nobody can tell by which of them
was attached. -/
theorem scan_depends_on_delivery {settings : List (Setting α η)} {lx : Lexer α η}
    (hist : History settings lx) {s s' : Source} {R : List Rune} {stop : Stop}
    (hname : s.name = s'.name) (hs : s.Delivers R stop) (hs' : s'.Delivers R stop) :
    (lx.attachSource s).Indistinguishable (lx.attachSource s') := by
  obtain ⟨hpending, hreason⟩ := Source.delivers_iff.mp hs
  obtain ⟨hpending', hreason'⟩ := Source.delivers_iff.mp hs'
  have ha := attached_attachSource lx s
  have ha' := attached_attachSource lx s'
  have hl : (lx.attachSource s).Alike (.presented η) (lx.attachSource s') :=
    { book := by rw [book_attachSource, book_attachSource]
      context := by rw [ha.context, ha'.context, hname]
      phase := by rw [ha.phase, ha'.phase]
      name := by
        rw [ha.context, ha'.context]
        exact hname
      handler := ha.handler.trans ha'.handler.symm
      input := by
        rw [Lexer.input, Lexer.input, ha.window, ha.bytes, ha'.window, ha'.bytes]
        exact ⟨.some (Window.presented_ofSource (hpending.trans hpending'.symm)
          (hreason.trans hreason'.symm)), rfl⟩
      left := (hist.attach s).upToDate
      right := (hist.attach s').upToDate }
  exact hl.indistinguishable (Likeness.faithful_presented η)

/-- A reader that breaks off, and a list of runes that lets its end be found. The first of them
reads ahead. -/
theorem scan_depends_on_delivery_broken :
    Source.ofReader "abx" (.broken "io") "f" ≠
        .direct ⟨[97, 98, 120], .broken "io"⟩ false (some "f") ∧
      (failedScan.attachSource (.ofReader "abx" (.broken "io") "f")).Indistinguishable
        (failedScan.attachSource (.direct ⟨[97, 98, 120], .broken "io"⟩ false (some "f"))) := by
  have hreader : (Source.ofReader "abx" (.broken "io") "f").Delivers [97, 98, 120] (.broken "io") :=
    Source.delivers_iff.mpr ⟨by decide, rfl⟩
  have hlist : (Source.direct ⟨[97, 98, 120], .broken "io"⟩ false (some "f")).Delivers [97, 98, 120]
      (.broken "io") := Source.delivers_iff.mpr ⟨rfl, rfl⟩
  exact ⟨by rintro ⟨⟩, scan_depends_on_delivery history_failedScan (by decide) hreader hlist⟩

end Munch
