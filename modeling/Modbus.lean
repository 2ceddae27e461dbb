import Modbus.Proofs.Answers
import Modbus.Proofs.Bytes
import Modbus.Proofs.Checked.Responses
import Modbus.Proofs.CoilStates
import Modbus.Proofs.Handles
import Modbus.Proofs.Isolation
import Modbus.Proofs.Layouts
import Modbus.Proofs.LogLines
import Modbus.Proofs.Meanings
import Modbus.Proofs.Recording
import Modbus.Proofs.Rejections
import Modbus.Proofs.Routing
import Modbus.Proofs.Schedules
import Modbus.Proofs.Sending
import Modbus.Proofs.Shapes
import Modbus.Proofs.WritingBack
