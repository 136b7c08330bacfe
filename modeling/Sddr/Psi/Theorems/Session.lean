import Sddr.Psi.Lemmas.Session
import Sddr.Psi.Theorems

/-! # Main results about the intersections of a session -/

namespace Sddr.Psi
open Sddr.Lib Sddr.Codec Sddr.Device Sddr.Radio Sddr.Radio.BT2PSI

variable {ec : Ec} {key : DSAKey} {sha : SHA1}

end Sddr.Psi
