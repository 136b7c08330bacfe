import Sddr.Codec.Theorems
import Sddr.Radio.Theorems.BT2NR
import Sddr.Radio.Theorems.BT2PSI
import Sddr.Radio.Theorems.Contacts
import Sddr.Control.Theorems
import Sddr.Control.Theorems.Connections
import Sddr.Control.Theorems.Deliveries
import Sddr.Control.Theorems.Encounters
import Sddr.Device.Theorems
import Sddr.Erasure.Theorems
import Sddr.Erasure.Theorems.Tables
import Sddr.Psi.Theorems
import Sddr.Psi.Theorems.Session
import Sddr.Radio.Theorems.Addresses
import Sddr.Radio.Theorems.BT2
import Sddr.Radio.Theorems.BT4
import Sddr.Radio.Theorems.ECDH
import Sddr.Radio.Theorems.EbNDeviceMap
import Sddr.Radio.Theorems.EpochList
import Sddr.Radio.Theorems.Filters
import Sddr.Radio.Theorems.Insertions
import Sddr.Radio.Theorems.Recency
import Sddr.Radio.Theorems.Schedule
import Sddr.Radio.Theorems.Repeats
import Sddr.Radio.Theorems.Window
import Sddr.Radio.Theorems.Tracking
import Sddr.Sockets.Theorems
import Sddr.Sockets.Theorems.Events
import Sddr.Wire.Theorems
