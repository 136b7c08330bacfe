import Sddr.Codec.PSIMessage

/-!
# What a message holds

`elements` are the bytes that the writer puts behind the size and that the reader takes apart.
-/

namespace Sddr.Codec
open Sddr.Lib

def elements (input : List Str) : List Byte := input.flatMap fun elem => littleEndian 4 elem.length ++ elem

/-- The whole message. -/
def framed (input : List Str) : List Byte := littleEndian 4 (elements input).length ++ elements input

theorem elements_cons (elem : Str) (input : List Str) :
    elements (elem :: input) = littleEndian 4 elem.length ++ elem ++ elements input := rfl

theorem length_elements (input : List Str) : (elements input).length = stringVectorSize input + input.length * 4 := by
  induction input with
  | nil => rfl
  | cons elem input ih =>
      rw [elements_cons, List.length_append, List.length_append, length_littleEndian, ih, List.length_cons]
      show _ = elem.length + stringVectorSize input + _
      omega

/-- The writer stores the elements behind what is done. -/
theorem writeElements_eq (input : List Str) (done rest : List Byte) (hrest : rest.length = (elements input).length)
    (hsize : rest.length < 2 ^ 32) :
    writeElements (done ++ rest) done.length input = some (done ++ elements input) := by
  induction input generalizing done rest with
  | nil =>
      obtain rfl : rest = [] := List.length_eq_zero_iff.mp hrest
      rfl
  | cons elem input ih =>
      rw [elements_cons, List.length_append, List.length_append, length_littleEndian] at hrest
      have hmod : elem.length % 2 ^ 32 = elem.length := Nat.mod_eq_of_lt (by omega)
      rw [writeElements, hmod]
      rw [splice_append done rest _ (by rw [length_littleEndian]; omega), Option.bind_some, length_littleEndian]
      have hpos : done.length + 4 = (done ++ littleEndian 4 elem.length).length := by
        rw [List.length_append, length_littleEndian]
      have hpos' : done.length + 4 + elem.length = (done ++ littleEndian 4 elem.length ++ elem).length := by
        rw [List.length_append, ← hpos]
      rw [List.take_length, hpos', hpos, splice_append _ _ _ (by rw [List.length_drop]; omega), Option.bind_some,
        List.drop_drop, ih]
      · rw [elements_cons]
        simp only [List.append_assoc]
      · rw [List.length_drop]
        omega
      · rw [List.length_drop]
        omega

theorem constructPSIMessage_eq (message : List Byte) (input : List Str) (hsize : framedSize input < 2 ^ 32) :
    constructPSIMessage message input = some (framed input) := by
  unfold framedSize at hsize
  have hmod : (stringVectorSize input + input.length * 4) % 2 ^ 32 = (elements input).length := by
    rw [length_elements]
    exact Nat.mod_eq_of_lt (by omega)
  rw [constructPSIMessage, hmod]
  have htotal : (4 + (elements input).length) % 2 ^ 32 = 4 + (elements input).length := by
    rw [length_elements]
    exact Nat.mod_eq_of_lt hsize
  have hheader := splice_append [] (resize message (4 + (elements input).length))
    (littleEndian 4 (elements input).length) (by rw [length_littleEndian, length_resize]; omega)
  rw [List.nil_append, List.nil_append, List.length_nil, length_littleEndian] at hheader
  rw [htotal, hheader, Option.bind_some]
  have hwrite := writeElements_eq input (littleEndian 4 (elements input).length)
    ((resize message (4 + (elements input).length)).drop 4) (by rw [List.length_drop, length_resize]; omega)
    (by rw [List.length_drop, length_resize, length_elements]; omega)
  rwa [length_littleEndian] at hwrite

/-- The reader takes the elements from behind what is done. -/
theorem parseElements_eq (input : List Str) (done : List Byte) (hsize : (elements input).length < 2 ^ 32) :
    parseElements (done ++ elements input) done.length = some input := by
  induction input generalizing done with
  | nil =>
      rw [parseElements, if_neg (by simp [elements])]
  | cons elem input ih =>
      rw [elements_cons, List.length_append, List.length_append, length_littleEndian] at hsize
      have hpos : done.length + 4 = (done ++ littleEndian 4 elem.length).length := by
        rw [List.length_append, length_littleEndian]
      have hpos' : done.length + 4 + elem.length = (done ++ littleEndian 4 elem.length ++ elem).length := by
        rw [List.length_append, ← hpos]
      have hbytes : done ++ elements (elem :: input) = done ++ littleEndian 4 elem.length ++ (elem ++ elements input) := by
        rw [elements_cons]
        simp only [List.append_assoc]
      have hheader := slice_append done (littleEndian 4 elem.length) (elem ++ elements input)
      rw [length_littleEndian, ← List.append_assoc, ← hbytes] at hheader
      have hread := slice_append (done ++ littleEndian 4 elem.length) elem (elements input)
      rw [← hpos, ← hbytes] at hread
      rw [parseElements, if_pos (by rw [hbytes]; simp only [List.length_append, length_littleEndian]; omega), hheader,
        Option.bind_some]
      dsimp only
      rw [ofLittleEndian_littleEndian (by omega), hread, Option.bind_some, hpos', hbytes, ← List.append_assoc,
        ih _ (by omega), Option.map_some]

theorem parsePSIMessage_elements (input : List Str) (hsize : framedSize input < 2 ^ 32) :
    parsePSIMessage (elements input) = some input := by
  have hparse := parseElements_eq input [] (by rw [length_elements]; unfold framedSize at hsize; omega)
  rwa [List.nil_append] at hparse

end Sddr.Codec
