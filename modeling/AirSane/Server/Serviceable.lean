import AirSane.ScanJob.Doubles
import AirSane.Server.Agreement

/-! # Tickets that can be served

A job is queued for every ticket that passes the two checks of `init`. What they
do not look at is whether the scanner has the source, whether a resolution is
given for one direction only, and what number it is.
-/

namespace AirSane
open Text Numbers ScanJob

section
variable (F : Arithmetic) {S : Type} (i : Init2 S) (xml : Octets)

/-- The setting stands in the ticket. -/
def Given (name : String) : Prop := getString xml (ascii name) ≠ []

/-- The scanner has the source that the ticket asks for. -/
def SourceExists : Prop :=
  inputSource i.description xml = ascii "Platen" ∧ i.mpPlaten.isSome ∨
    inputSource i.description xml = ascii "Feeder" ∧
      if (getNumber F.doubles xml (ascii "Duplex")).equal (.finite 1) then i.mpAdfDuplex.isSome
      else i.mpAdfSimplex.isSome

/-- The source is there, and the resolution is given for both directions or for
none, and is one. -/
structure Serviceable : Prop where
  source : SourceExists F i xml
  both : Given xml "XResolution" ∨ Given xml "YResolution" →
    Given xml "XResolution" ∧ Given xml "YResolution" ∧
      (getNumber F.doubles xml (ascii "XResolution")).equal
        (getNumber F.doubles xml (ascii "YResolution")) = true
  resolution : IsResolution (F.resolution xml)

/-- A job is pending for a serviceable ticket only, and aborted otherwise. -/
structure QueuedOnlyServiceable (j : Job Double) : Prop where
  pending : j.mState = .pending → Serviceable F i xml
  aborted : ¬ Serviceable F i xml →
    j.mState = .aborted ∧ j.mStateReason = PWG_INVALID_SCAN_TICKET

/-- What the checks do not look at is as it should be. -/
structure NothingOverlooked : Prop where
  source : SourceExists F i xml
  none : getNumber F.doubles xml (ascii "XResolution") = .nan →
    ¬ Given xml "XResolution" ∧ ¬ Given xml "YResolution"
  resolution : IsResolution (F.resolution xml)

variable {F i xml}

section
variable (autoselectFormat : Bool) (options : Options Double) (j : Job Double)

theorem init_pending {scanner : ScannerDescription} (h : validTicket F.doubles scanner xml = true) :
    (j.init F.doubles scanner xml autoselectFormat options).mState = .pending := by
  rw [Job.init, Job.setState, if_pos h]

theorem init_aborted {scanner : ScannerDescription}
    (h : validTicket F.doubles scanner xml = false) :
    (j.init F.doubles scanner xml autoselectFormat options).mState = .aborted ∧
      (j.init F.doubles scanner xml autoselectFormat options).mStateReason =
        PWG_INVALID_SCAN_TICKET := by
  rw [Job.init, Job.setState, if_neg (by simp [h])]
  exact ⟨rfl, rfl⟩

end

theorem serviceable_iff (h : validTicket F.doubles i.description xml = true) :
    Serviceable F i xml ↔ NothingOverlooked F i xml := by
  constructor
  · rintro ⟨hsource, hboth, hres⟩
    refine ⟨hsource, fun hnan => ?_, hres⟩
    rw [← not_or]
    intro hgiven
    exact (Extended.ne_nan_of_equal (hboth hgiven).2.2).1 hnan
  · rintro ⟨hsource, hnone, hres⟩
    refine ⟨hsource, fun hgiven => ?_, hres⟩
    have hne : getNumber F.doubles xml (ascii "XResolution") ≠ .nan := fun hnan =>
      not_or.2 (hnone hnan) hgiven
    have hequal : (getNumber F.doubles xml (ascii "XResolution")).equal
        (getNumber F.doubles xml (ascii "YResolution")) = true := by
      rw [validTicket, Bool.and_eq_true, Bool.or_eq_true] at h
      exact h.1.resolve_left fun hnan => hne (Extended.isnan_iff.1 hnan)
    exact ⟨Arithmetic.getString_ne_nil hne,
      Arithmetic.getString_ne_nil (Extended.ne_nan_of_equal hequal).2, hequal⟩

end

end AirSane
